import CodeAtlas.FileFacts
import CodeAtlas.Json
/-!
The facts of files as JSON documents. Entries stand in the order of the fields; what is missing is
left out.
-/
namespace CodeAtlas

def Path.json (p : Path) : Json :=
  .string p.text

def Span.json (s : Span) : Json :=
  .object
    [("start_byte", .number s.startByte), ("end_byte", .number s.endByte),
      ("start_line", .number s.startLine), ("start_col", .number s.startCol),
      ("end_line", .number s.endLine), ("end_col", .number s.endCol)]

def Location.json (l : Location) : Json :=
  .object [("file", l.file.json), ("span", l.span.json)]

def Symbol.json (s : Symbol) : Json :=
  .object
    ([("name", .string s.name), ("qualified_name", .string s.qualifiedName),
      ("kind", .string s.kind.id), ("location", s.location.json)] ++
      Json.optional "signature" .string s.signature ++
      Json.optional "documentation" .string s.documentation ++
      [("visibility", .string s.visibility.id)] ++
      Json.optional "parent" .string s.parent ++
      Json.optional "complexity" (fun c => .number c.toNat) s.complexity)

def Dependency.json (d : Dependency) : Json :=
  .object
    [("source", .string d.source), ("target", .string d.target), ("kind", .string d.kind.id),
      ("location", d.location.json)]

def FileMetrics.json (m : FileMetrics) : Json :=
  .object
    [("cyclomatic", .number m.cyclomatic.toNat), ("lines", .number m.lines),
      ("nesting_depth", .number m.nestingDepth)]

def FileError.json : FileError → Json
  | .parse file reason =>
    .object [("kind", .string "parse"), ("file", file.json), ("reason", .string reason)]
  | .timeout file limit =>
    .object [("kind", .string "timeout"), ("file", file.json), ("limit_ms", .number limit)]
  | .unreadable file reason =>
    .object [("kind", .string "unreadable"), ("file", file.json), ("reason", .string reason)]
  | .tooLarge file size limit =>
    .object
      [("kind", .string "too_large"), ("file", file.json), ("size", .number size),
        ("limit", .number limit)]

def RunEvent.json (e : RunEvent) : Json :=
  .object
    ([("kind", .string e.kind.id)] ++ Json.optional "file" Path.json e.file ++
      [("message", .string e.message)])

def RunLog.json (log : RunLog) : Json :=
  .array (log.entries.map RunEvent.json)

def FileFacts.json (f : FileFacts) : Json :=
  .object
    ([("path", f.path.json), ("language", .string f.language.id),
      ("module_id", .string f.moduleId), ("symbols", .array (f.symbols.map Symbol.json)),
      ("dependencies", .array (f.dependencies.map Dependency.json)),
      ("metrics", f.metrics.json), ("partial", .bool f.isPartial),
      ("fallback", .bool f.isFallback)] ++
      Json.optional "error" FileError.json f.error)

end CodeAtlas
