import ModelAudit.Document.Sync

namespace ModelAudit

structure Edge where
  source : String
  target : String
  sync : Option Sync := none
deriving DecidableEq, Repr

-- Names need not be declared or distinct: there may be edges from and to locations that are not listed.
structure Template where
  name : String
  init : String
  locations : List String
  edges : List Edge := []
deriving DecidableEq, Repr

structure Document where
  name : String
  declaration : String := ""
  specification : Option String := none
  templates : List Template := []
deriving DecidableEq, Repr

namespace Edge

def sending (e : Edge) (channel : String) : Edge :=
  { e with sync := some ⟨channel, .send⟩ }

def receiving (e : Edge) (channel : String) : Edge :=
  { e with sync := some ⟨channel, .receive⟩ }

def SyncsOn (e : Edge) (channel : String) (direction : Sync.Direction) : Prop :=
  e.sync = some ⟨channel, direction⟩

instance (e : Edge) (channel : String) (direction : Sync.Direction) :
    Decidable (e.SyncsOn channel direction) :=
  inferInstanceAs (Decidable (_ = _))

end Edge

namespace Template

def startingIn (name init : String) : Template where
  name := name
  init := init
  locations := [init]

def addLocation (t : Template) (location : String) : Template :=
  { t with locations := t.locations ++ [location] }

def addEdge (t : Template) (e : Edge) : Template :=
  { t with edges := t.edges ++ [e] }

def outgoing (t : Template) (location : String) : List Edge :=
  t.edges.filter (·.source == location)

theorem mem_outgoing {t : Template} {location : String} {e : Edge} :
    e ∈ t.outgoing location ↔ e ∈ t.edges ∧ e.source = location := by
  simp [outgoing]

end Template

namespace Document

def addTemplate (d : Document) (t : Template) : Document :=
  { d with templates := d.templates ++ [t] }

def withSpecification (d : Document) (text : String) : Document :=
  { d with specification := some text }

def template? (d : Document) (name : String) : Option Template :=
  d.templates.find? (·.name == name)

end Document

end ModelAudit
