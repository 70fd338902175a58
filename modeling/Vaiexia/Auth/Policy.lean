/-!
# The authorization policy

`crates/vaiexia-server/src/auth/policy.rs`: what a method or a topic asks of the caller.  Scopes,
methods and topics are their names.
-/

namespace Vaiexia.Auth

/-- `Requirement`. -/
inductive Requirement where
  | anonymous
  | authenticated
  | scope (name : String)
deriving DecidableEq, Repr

/-- `method_requirement`. -/
def methodRequirement (method : String) : Option Requirement :=
  match method with
  | "server.host.info"
  | "server.services.list"
  | "server.services.status"
  | "server.packages.list"
  | "server.jobs.status" => some (.scope "server.read")
  | "server.services.start" | "server.services.stop" | "server.services.restart" =>
      some (.scope "server.services.write")
  | "server.packages.install" | "server.packages.remove" => some (.scope "server.packages.write")
  | "server.logs.query" => some (.scope "server.logs.read")
  | "auth.login" | "auth.bootstrap.claim" => some .anonymous
  | "auth.whoami" => some .authenticated
  | "auth.token.create" | "auth.token.list" | "auth.token.revoke" => some (.scope "auth.admin")
  | _ => none

/-- `topic_scope`. -/
def topicScope (topic : String) : Option String :=
  match topic with
  | "server.metrics" | "server.services.status" | "server.jobs" => some "server.read"
  | "server.logs" => some "server.logs.read"
  | _ => none

end Vaiexia.Auth
