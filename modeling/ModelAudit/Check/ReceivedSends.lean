import ModelAudit.Check.Basic
import ModelAudit.Search

namespace ModelAudit.Check

def receivers (d : Document) (scope : Option String) : List Template :=
  match scope with
  | none => d.templates
  | some name => d.templates.filter (·.name == name)

def isReceived (d : Document) (scope : Option String) (channel : String) : Bool :=
  (receivers d scope).any fun t => t.edges.any fun e => e.SyncsOn channel .receive

def firstSend? (d : Document) (channel : String) : Option (Template × Edge) :=
  d.templates.findSome? fun t =>
    (t.edges.find? fun e => e.SyncsOn channel .send).map fun e => (t, e)

def unreceivedMessage (channel : String) (scope : Option String) (t : Template) (send : Edge) :
    String :=
  "Send on '" ++ channel ++ "' at " ++ qualified t send.source ++ " -> " ++
    qualified t send.target ++ " has no receiving edge" ++
    (match scope with | some name => " in template " ++ name | none => "")

-- An empty name asks for no template.
def scope? (r : Request) : Option String :=
  (r.text? "template").filter (· ≠ "")

def unreceived (c : Context) (channel : String) (t : Template) (send : Edge) : Checking Record := do
  let record := Record.violated "receivesyncs"
    (unreceivedMessage channel (scope? c.request) t send)
  if c.checker.producesTraces then
    match ← t.pathTo send.source with
    | none => return record
    | some path => return c.attachTrace record (.ofEdges t (path ++ [send]))
  else return record

def unknownTemplate? (c : Context) : Option String :=
  (scope? c.request).filter fun name => (c.document.template? name).isNone

def receiveSyncsOn (c : Context) (channel : String) : Checking Record :=
  match unknownTemplate? c with
  | some name => throw (.check "receivesyncs" ("unknown template '" ++ name ++ "'"))
  | none =>
    if isReceived c.document (scope? c.request) channel then
      pure (.passed "receivesyncs" ("All sends on '" ++ channel ++ "' can be received"))
    else
      match firstSend? c.document channel with
      | none => pure (.passed "receivesyncs" ("Channel '" ++ channel ++ "' is never sent on"))
      | some (t, send) => unreceived c channel t send

def receiveSyncs : Check where
  name := "Receive syncs"
  shortName := "receivesyncs"
  parameters :=
    [.checker, ⟨"channel", "Channel", .text, true⟩, ⟨"template", "Receiving template", .text, false⟩]
  run c := do
    let channel ← Checking.ofExcept (c.request.require "channel")
    receiveSyncsOn c channel

end ModelAudit.Check
