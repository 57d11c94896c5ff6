import CodeAtlas.Config
import CodeAtlas.Json
/-!
The configuration as JSON.
-/
namespace CodeAtlas

def Config.json (c : Config) : Json :=
  .object [("include_patterns", .strings c.includePatterns),
    ("exclude_patterns", .strings c.excludePatterns),
    ("use_default_excludes", .bool c.useDefaultExcludes),
    ("max_file_size", .number c.maxFileSize), ("languages", .strings c.languages),
    ("analysis_depth", .string c.depth.id), ("file_timeout_ms", .number c.fileTimeoutMs),
    ("threads", .ofOption .number c.threads), ("follow_links", .bool c.followLinks),
    ("retain_syntax_trees", .bool c.retainTrees)]

end CodeAtlas
