import ModelAudit.Token

namespace ModelAudit

inductive AuditError where
  | specification (fragment reason : String)
  | check (check reason : String)
  | run (reason : String)
  | staleToken (token : Token)
  | unknownCheck (check : String)
  | missingParameter (check parameter : String)
  | cancelled
  | unreadable (error : Json.ReadError)
  | io (reason : String)
deriving Repr

namespace AuditError

def message : AuditError → String
  | .specification fragment reason =>
    "malformed check specification at " ++ fragment ++ ": " ++ reason
  | .check name reason => "check '" ++ name ++ "' failed: " ++ reason
  | .run reason => "check run failed: " ++ reason
  | .staleToken token => "unknown or expired trace token: " ++ token.text
  | .unknownCheck name => "unknown check type: " ++ name
  | .missingParameter name parameter =>
    "check '" ++ name ++ "' is missing required parameter '" ++ parameter ++ "'"
  | .cancelled => "check execution cancelled"
  | .unreadable error => "serialization error: " ++ error.message
  | .io reason => "io error: " ++ reason

def isCancelled : AuditError → Bool
  | cancelled => true
  | _ => false

end AuditError

end ModelAudit
