import Traceline.Library.Base64
import Traceline.Library.Except
import Traceline.Loads
import Traceline.Versions.Store

-- The envelopes of a secret: the one that is written, and the one that is only read to be migrated.
-- The table of secrets, and the migration of those that the retired prototype wrote.
namespace Secrets

abbrev Bytes := List UInt8

inductive Error
  | workflow_error (message code : String) (status : ℕ)
  | denied (e : Versions.Error)
  | integrity_error (constraint : String)
  | raised (exception : String)
  deriving DecidableEq, Repr

-- What is encrypted is authenticated too, and is read back with the same key, nonce and data.
structure Primitives where
  hmac            : Bytes → Bytes → Bytes
  encrypt         : (key nonce data aad : Bytes) → Option Bytes
  decrypt         : (key nonce data aad : Bytes) → Option Bytes
  dumps           : Json → String
  hmac_length     : ∀ key message, (hmac key message).length = 32
  decrypt_encrypt : ∀ {key nonce data aad ciphertext},
    encrypt key nonce data aad = some ciphertext → decrypt key nonce ciphertext aad = some data
  encrypt_length  : ∀ {key nonce data aad ciphertext},
    encrypt key nonce data aad = some ciphertext → ciphertext.length = data.length + 16

def KEY_ID : String :=
  "install-local"

def corrupt (message : String) : Error :=
  .workflow_error message "secret_corrupt" 409

def unsupported (message : String) : Error :=
  .workflow_error message "secret_unsupported_version" 409

section Text

def utf8 (text : String) : Bytes :=
  text.toByteArray.data.toList

def decode_utf8 (data : Bytes) : Option String :=
  String.fromUTF8? ⟨⟨data⟩⟩

-- `base64.b64decode(encoded.encode("ascii"), altchars=b"-_", validate=True)`
def b64decode (encoded : List Char) : Option Bytes :=
  Base64.decode encoded

-- `text.split(".", 1)`
def partition (text : List Char) : List Char × Option (List Char) :=
  (text.takeWhile (· ≠ '.'), (text.dropWhile (· ≠ '.')).tail?)

end Text

section Legacy

def _legacy_xor (data stream : Bytes) : Bytes :=
  data.zipWith (· ^^^ ·) stream

-- `index.to_bytes(4, "big")`
def to_bytes (index : ℕ) : Except Error Bytes :=
  if index < 2 ^ 32 then
    .ok [.ofNat (index / 2 ^ 24), .ofNat (index / 2 ^ 16), .ofNat (index / 2 ^ 8), .ofNat index]
  else .error <| .raised "OverflowError"

variable (P : Primitives) (key : Bytes)

def _legacy_keystream (nonce : Bytes) (length : ℕ) : Except Error Bytes := do
  let blocks ← (List.range ((length + 31) / 32)).mapM fun index => do
    return P.hmac key (nonce ++ (← to_bytes index))
  return blocks.flatten

def _is_legacy (encoded : String) : Bool :=
  match b64decode encoded.toList with
  | none      => false
  | some data => data.length > 16 + 32

def _decrypt_legacy (encoded : String) : Except Error String :=
  if ¬ _is_legacy encoded then
    .error <| corrupt "Legacy secret ciphertext is not decodable"
  else
    let data := (b64decode encoded.toList).getD []
    let nonce := data.take 16
    let tag := (data.drop 16).take 32
    let body := data.drop (16 + 32)
    if tag ≠ P.hmac key (nonce ++ body) then
      .error <| corrupt "Legacy secret ciphertext failed integrity verification"
    else do
      let keystream ← _legacy_keystream P key nonce body.length
      match decode_utf8 (_legacy_xor body keystream) with
      | some value => return value
      | none       => .error <| .raised "UnicodeDecodeError"

end Legacy

section V1

variable (P : Primitives) (key : Bytes) (workspace_id secret_id : String)

def _aad : Bytes :=
  utf8 <| P.dumps <| .arr [.str "v1", .str KEY_ID, .str workspace_id, .str secret_id]

def _encrypt (nonce : Bytes) (value : String) : Except Error String :=
  match P.encrypt key nonce (utf8 value) (_aad P workspace_id secret_id) with
  | none            => .error <| .raised "OverflowError"
  | some ciphertext =>
    .ok <| String.ofList <| "v1.".toList ++ KEY_ID.toList ++ '.' :: Base64.encode (nonce ++ ciphertext)

def _decrypt_v1 (encoded : List Char) : Except Error String :=
  match b64decode encoded with
  | none      => .error <| corrupt "Secret ciphertext is not decodable"
  | some data =>
    if data.length ≤ 12 then .error <| corrupt "Secret ciphertext is truncated"
    else
      match P.decrypt key (data.take 12) (data.drop 12) (_aad P workspace_id secret_id) with
      | none       => .error <| corrupt "Secret ciphertext failed integrity verification"
      | some plain =>
        match decode_utf8 plain with
        | some value => .ok value
        | none       => .error <| .raised "UnicodeDecodeError"

def _decrypt (encoded : String) : Except Error String :=
  let (version, rest) := partition encoded.toList
  let (key_id, payload) := partition (rest.getD [])
  match rest, payload with
  | some _, some payload =>
    if version = "v1".toList then
      if key_id ≠ KEY_ID.toList then
        .error <| unsupported "Secret ciphertext names an unknown install key"
      else _decrypt_v1 P key workspace_id secret_id payload
    else refused encoded
  | _,      _            => refused encoded
where
  refused (encoded : String) : Except Error String :=
    if _is_legacy encoded then
      .error <| .workflow_error "Legacy secret ciphertext requires explicit migration"
        "secret_legacy_ciphertext" 409
    else .error <| unsupported "Secret ciphertext envelope is not supported"

end V1

open Versions (Actor)

structure SecretRef where
  workspace_id          : String
  secret_id             : String
  secret_type           : String
  ciphertext            : String
  allowed_services_json : String
  key_id                : String
  deriving DecidableEq, Repr

structure SecretAudit where
  workspace_id : String
  audit_id     : String
  secret_id    : String
  action       : String
  service      : Option String
  actor_id     : String
  created_at   : String
  deriving DecidableEq, Repr

def SecretRef.id (r : SecretRef) : String × String :=
  (r.workspace_id, r.secret_id)

def SecretAudit.id (a : SecretAudit) : String × String :=
  (a.workspace_id, a.audit_id)

def SecretRef.rewrite (ciphertext key_id : String) (r : SecretRef) : SecretRef :=
  { r with ciphertext, key_id }

theorem SecretRef.id_rewrite (ciphertext key_id : String) (r : SecretRef) :
    (r.rewrite ciphertext key_id).id = r.id :=
  rfl

structure State where
  secret_refs  : Table SecretRef.id
  secret_audit : Table SecretAudit.id

-- The statements of the migration.
inductive Statement
  | select_legacy (workspace_id : String)
  | update_ciphertext (workspace_id secret_id ciphertext key_id : String)
  | insert_audit (a : SecretAudit)

inductive Query
  | token_bytes
  | uuid4
  | now

abbrev sql : Sig where
  Call := Statement
  Reply
    | .select_legacy _ => List SecretRef
    | _                => Unit
  Query := Query
  Answer
    | .token_bytes => Bytes
    | _            => String
  Error := Error

-- `ciphertext LIKE 'v1.%'`, which does not tell upper case from lower case on SQLite.
def like_v1 (is_postgres : Bool) (ciphertext : String) : Bool :=
  "v1.".toList.isPrefixOf ciphertext.toList ||
    !is_postgres && "V1.".toList.isPrefixOf ciphertext.toList

abbrev store (is_postgres : Bool) : Store sql where
  State := State
  perform
    | .select_legacy workspace_id, s =>
      (.ok <| s.secret_refs.rows.filter fun r =>
        r.workspace_id = workspace_id && !like_v1 is_postgres r.ciphertext, s)
    | .update_ciphertext workspace_id secret_id ciphertext key_id, s =>
      (.ok (), { s with
        secret_refs := s.secret_refs.update (·.id = (workspace_id, secret_id))
          (·.rewrite ciphertext key_id) (SecretRef.id_rewrite ciphertext key_id) })
    | .insert_audit a, s =>
      match s.secret_audit.insert a with
      | none              => (.error <| .integrity_error "secret_audit.audit_id", s)
      | some secret_audit => (.ok (), { s with secret_audit })

-- The attributes of a `SecretStore`.
structure SecretStore where
  actor            : Actor
  key              : Bytes
  service_identity : String

def execute (c : Statement) : Prog sql (sql.Reply c) :=
  Prog.perform (S := sql) c

def ask (q : Query) : Prog sql (sql.Answer q) :=
  Prog.query (S := sql) q

-- `name in services`
def contains (services : Json) (name : String) : Except Error Bool :=
  match services with
  | .arr xs     => .ok <| Json.str name ∈ xs
  | .obj fields => .ok <| name ∈ fields.map (·.1)
  | .str text   => .ok <| text.toList.tails.any name.toList.isPrefixOf
  | _           => .error <| .raised "TypeError"

namespace SecretStore

variable (P : Primitives) (c : SecretStore)

def _audit (secret_id action : String) (service : Option String) : Prog sql Unit := do
  let audit_id ← ask .uuid4
  let created_at ← ask .now
  execute <| .insert_audit {
    workspace_id := c.actor.workspace_id
    actor_id     := c.actor.actor_id
    audit_id, secret_id, action, service, created_at
  }

-- What the migration reads of a row that it has selected.
def decode (row : SecretRef) : Except Error (String × String) := do
  let some services := loads row.allowed_services_json.toList
    | .error <| .raised "JSONDecodeError"
  if ¬ (← contains services c.service_identity) then
    .error <| .workflow_error "Secret access denied" "forbidden" 403
  else
    match _decrypt_legacy P c.key row.ciphertext with
    | .ok value => return (row.secret_id, value)
    | .error (.workflow_error _ code status) =>
      .error <| .workflow_error s!"Legacy secret {row.secret_id} could not be migrated" code status
    | .error e  => .error e

def re_encrypt (secret : String × String) : Prog sql PUnit := do
  let nonce ← ask .token_bytes
  let ciphertext ← Prog.ofExcept <|
    _encrypt P c.key c.actor.workspace_id secret.1 nonce secret.2
  execute <| .update_ciphertext c.actor.workspace_id secret.1 ciphertext KEY_ID
  c._audit secret.1 "rotated" c.service_identity

def migrate_legacy_secrets : Prog sql ℕ := do
  Prog.ofExcept <| c.actor.require_write.mapError .denied
  if c.service_identity = "" then
    throw <| .workflow_error "Trusted service identity is required" "forbidden" 403
  let rows ← execute <| .select_legacy c.actor.workspace_id
  let decoded ← Prog.ofExcept <| rows.mapM <| c.decode P
  decoded.forM <| c.re_encrypt P
  return decoded.length

end SecretStore

end Secrets
