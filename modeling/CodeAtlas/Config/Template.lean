/-!
The configuration file that a user starts from. It has every key, with its default, and says what
the key means; the number of threads, which has no default, is in a comment.
-/
namespace CodeAtlas.Config

def template : List String :=
  ["# archlens configuration",
    "#",
    "# Every key is optional; the values below are the defaults.",
    "",
    "# Globs a file must match (any of) to be analyzed. Empty means everything.",
    "include_patterns: []",
    "",
    "# Globs excluding files or whole directories, e.g. \"**/generated/**\".",
    "exclude_patterns: []",
    "",
    "# Skip VCS metadata, dependency caches and build output",
    "# (.git, node_modules, target, __pycache__, .venv, venv, vendor).",
    "use_default_excludes: true",
    "",
    "# Files above this size in bytes are skipped.",
    "max_file_size: 1048576",
    "",
    "# Restrict analysis to these language ids, e.g. [python, go]. Empty means all.",
    "languages: []",
    "",
    "# shallow: symbols only. full: symbols, dependencies, graph edges and patterns.",
    "analysis_depth: full",
    "",
    "# Per-file parser timeout in milliseconds, 0 disables it.",
    "file_timeout_ms: 10000",
    "",
    "# Worker threads. Omit to use every available core.",
    "# threads: 4",
    "",
    "follow_links: false",
    "",
    "# Keep syntax trees in memory after extraction.",
    "retain_syntax_trees: false"]

end CodeAtlas.Config
