import ModelAudit.Document.Basic
import ModelAudit.Json.Layout

namespace ModelAudit

open Json (Reader Layout Field readText readOptional readList)

def Sync.read : Reader Sync := do
  let label ← readText
  match Sync.ofLabel? label with
  | .ok sync => return sync
  | .error e => Reader.failPending (.refused e.message)

-- There is no member at all for a field with nothing in it.
def optionalMember (name : String) : Option Json → List (String × Json)
  | none => []
  | some value => [(name, value)]

namespace Edge

def layout : Layout Edge where
  title := "struct Edge"
  blank := { source := "", target := "" }
  fields :=
    [⟨"source", true, (fun s e => { e with source := s }) <$> readText⟩,
      ⟨"target", true, (fun s e => { e with target := s }) <$> readText⟩,
      ⟨"sync", false, (fun s e => { e with sync := s }) <$> readOptional Sync.read⟩]

def toJson (e : Edge) : Json :=
  .object ([("source", .text e.source), ("target", .text e.target)] ++
    optionalMember "sync" (e.sync.map fun s => .text s.label))

end Edge

namespace Template

def layout : Layout Template where
  title := "struct Template"
  blank := { name := "", init := "", locations := [] }
  fields :=
    [⟨"name", true, (fun s t => { t with name := s }) <$> readText⟩,
      ⟨"init", true, (fun s t => { t with init := s }) <$> readText⟩,
      ⟨"locations", true, (fun ls t => { t with locations := ls }) <$> readList readText⟩,
      ⟨"edges", false, (fun es t => { t with edges := es }) <$> readList Edge.layout.read⟩]

def toJson (t : Template) : Json :=
  .object
    [("name", .text t.name), ("init", .text t.init), ("locations", .list (t.locations.map .text)),
      ("edges", .list (t.edges.map Edge.toJson))]

end Template

namespace Document

def layout : Layout Document where
  title := "struct Document"
  blank := { name := "" }
  fields :=
    [⟨"name", true, (fun s d => { d with name := s }) <$> readText⟩,
      ⟨"declaration", false, (fun s d => { d with declaration := s }) <$> readText⟩,
      ⟨"specification", false,
        (fun s d => { d with specification := s }) <$> readOptional readText⟩,
      ⟨"templates", false,
        (fun ts d => { d with templates := ts }) <$> readList Template.layout.read⟩]

def toJson (d : Document) : Json :=
  .object ([("name", .text d.name), ("declaration", .text d.declaration)] ++
    optionalMember "specification" (d.specification.map .text) ++
    [("templates", .list (d.templates.map Template.toJson))])

def write (d : Document) : String :=
  d.toJson.pretty

def read (text : String) : Except Json.ReadError Document :=
  Json.decode layout.read text

end Document

end ModelAudit
