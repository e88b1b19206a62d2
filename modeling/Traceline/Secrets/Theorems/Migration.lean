import Traceline.Secrets.Store
import Traceline.Secrets.Theorems.Envelope
import Traceline.Library.Forall2

open Prog (wp_bind wp_forM wp_mono wp_returns_perform)
open Except (bind_eq_ok_iff mapM_eq_ok_iff)

namespace Secrets

variable {P : Primitives} {c : SecretStore} {is_postgres : Bool} {s t : State} {n : ℕ}
variable {allow : ∀ q, sql.Answer q → Prop} {r r' row : SecretRef} {decoded past : List (String × String)}
variable {secret : String × String}

-- The rows that the migration is about.
def Legacy (c : SecretStore) (r : SecretRef) : Prop :=
  r.workspace_id = c.actor.workspace_id ∧ _is_legacy r.ciphertext = true

-- A legacy row holds one value, and is encrypted to that value. Other rows are left alone.
structure Preserved (P : Primitives) (c : SecretStore) (r r' : SecretRef) : Prop where
  legacy : Legacy c r → ∃ value, Held P c.key r.ciphertext value ∧
    (∀ value', Held P c.key r.ciphertext value' → value' = value) ∧
    _decrypt P c.key c.actor.workspace_id r.secret_id r'.ciphertext = .ok value ∧
    r' = r.rewrite r'.ciphertext KEY_ID
  other  : ¬ Legacy c r → r' = r

section Selection

theorem like_v1_of_prefix {ciphertext : String} (h : "v1.".toList.isPrefixOf ciphertext.toList = true) :
    like_v1 is_postgres ciphertext = true := by
  rw [like_v1, h]
  rfl

-- What is of the shape of the prototype is selected.
theorem like_v1_of_legacy {ciphertext : String} (h : _is_legacy ciphertext = true) :
    like_v1 is_postgres ciphertext = false := by
  have hdot := dot_not_mem_of_legacy h
  have hprefix : ∀ text : List Char, '.' ∈ text → text.isPrefixOf ciphertext.toList = false := by
    intro text htext
    refine Bool.eq_false_iff.mpr fun hp => hdot ?_
    exact (List.isPrefixOf_iff_prefix.mp hp).subset htext
  rw [like_v1, hprefix _ (by decide), hprefix _ (by decide), Bool.and_false]
  rfl

theorem decode_eq_ok (h : c.decode P row = .ok secret) :
    secret.1 = row.secret_id ∧ _decrypt_legacy P c.key row.ciphertext = .ok secret.2 := by
  rw [SecretStore.decode] at h
  split at h
  · obtain ⟨found, -, h⟩ := bind_eq_ok_iff.mp h
    split at h
    · cases h
    · split at h
      · next hvalue =>
        cases h
        exact ⟨rfl, hvalue⟩
      · cases h
      · cases h
  · cases h

end Selection

section Rewriting

-- What the loop has done to a row once it is through with the secrets of `past`.
structure Rewritten (P : Primitives) (c : SecretStore) (past : List (String × String))
    (r r' : SecretRef) : Prop where
  changed : r.workspace_id = c.actor.workspace_id → ∀ value, (r.secret_id, value) ∈ past →
    ∃ value', (r.secret_id, value') ∈ past ∧
      _decrypt P c.key c.actor.workspace_id r.secret_id r'.ciphertext = .ok value' ∧
      "v1.".toList.isPrefixOf r'.ciphertext.toList = true ∧ r' = r.rewrite r'.ciphertext KEY_ID
  kept    : r.workspace_id ≠ c.actor.workspace_id ∨ r.secret_id ∉ past.map (·.1) → r' = r

theorem wp_execute {d : Statement} {Q : sql.Reply d → State → Prop}
    (h : ∀ r t, (store is_postgres).perform d s = (.ok r, t) → Q r t) :
    (execute d).wp (.returns (store is_postgres) allow) Q s :=
  wp_returns_perform h

theorem wp_audit {secret_id action : String} {service : Option String} :
    (c._audit secret_id action service).wp (.returns (store is_postgres) allow)
      (fun _ t => t.secret_refs = s.secret_refs) s := by
  refine (wp_bind _ _ _).mpr fun audit_id _ => (wp_bind _ _ _).mpr fun created_at _ => ?_
  refine wp_execute fun _ t hp => ?_
  dsimp only at hp
  split at hp
  · cases hp
  · cases hp
    rfl

theorem Rewritten.step {ciphertext nonce} (hnonce : List.length nonce = 12)
    (hencrypt : _encrypt P c.key c.actor.workspace_id secret.1 nonce secret.2 = .ok ciphertext)
    (h : Rewritten P c past r r') : Rewritten P c (past ++ [secret]) r
      (if r'.id = (c.actor.workspace_id, secret.1) then r'.rewrite ciphertext KEY_ID else r') := by
  have hid : r'.id = r.id := by
    by_cases hr : r.workspace_id ≠ c.actor.workspace_id ∨ r.secret_id ∉ past.map (·.1)
    case pos => rw [h.kept hr]
    case neg =>
      obtain ⟨hworkspace, hmem⟩ := not_or.mp hr
      obtain ⟨⟨_, value⟩, hmem, rfl⟩ := List.mem_map.mp <| not_not.mp hmem
      obtain ⟨_, -, -, -, hr'⟩ := h.changed (not_not.mp hworkspace) value hmem
      rw [hr']
      rfl
  by_cases hsecret : r.id = (c.actor.workspace_id, secret.1)
  case pos =>
    rw [if_pos (hid.trans hsecret)]
    obtain ⟨hworkspace, hsecret⟩ := Prod.mk.inj hsecret
    have hlast : (r.secret_id, secret.2) ∈ past ++ [secret] :=
      List.mem_append_right _ <| List.mem_singleton.mpr <| Prod.ext hsecret rfl
    refine ⟨fun _ _ _ => ⟨secret.2, hlast, ?_, encrypt_prefix hencrypt, ?_⟩, fun hkept => ?_⟩
    · rw [hsecret]
      exact decrypt_encrypt hnonce hencrypt
    · by_cases hmem : r.secret_id ∈ past.map (·.1)
      case pos =>
        obtain ⟨⟨_, value⟩, hmem, rfl⟩ := List.mem_map.mp hmem
        obtain ⟨_, -, -, -, hr'⟩ := h.changed hworkspace value hmem
        rw [hr']
        rfl
      case neg => rw [h.kept (.inr hmem)]; rfl
    · exact hkept.elim (absurd hworkspace) fun hnot =>
        absurd (List.mem_map.mpr ⟨_, hlast, rfl⟩) hnot
  case neg =>
    rw [if_neg (hid ▸ hsecret)]
    refine ⟨fun hworkspace value hmem => ?_, fun hkept => h.kept <| hkept.imp_right fun hnot hmem =>
      hnot <| List.map_append ▸ List.mem_append_left _ hmem⟩
    rcases List.mem_append.mp hmem with hmem | hmem
    · obtain ⟨value', hmem', hrest⟩ := h.changed hworkspace value hmem
      exact ⟨value', List.mem_append_left _ hmem', hrest⟩
    · rw [← List.mem_singleton.mp hmem] at hsecret
      exact absurd (congrArg (·, r.secret_id) hworkspace) hsecret

theorem wp_re_encrypt (ha : ∀ nonce, allow .token_bytes nonce → List.length nonce = 12)
    (ht : List.Forall₂ (Rewritten P c past) s.secret_refs.rows t.secret_refs.rows) :
    (c.re_encrypt P secret).wp (.returns (store is_postgres) allow)
      (fun _ u => List.Forall₂ (Rewritten P c (past ++ [secret])) s.secret_refs.rows
        u.secret_refs.rows) t := by
  refine (wp_bind _ _ _).mpr fun nonce hnonce => (wp_bind _ _ _).mpr ?_
  rw [Prog.wp_ofExcept]
  cases hencrypt : _encrypt P c.key c.actor.workspace_id secret.1 nonce secret.2 with
  | error e       => trivial
  | ok ciphertext =>
    refine (wp_bind _ _ _).mpr <| wp_execute fun _ u hp => ?_
    cases hp
    refine wp_mono (fun _ u hu => ?_) wp_audit
    rw [hu]
    refine List.forall₂_map_right_iff.mpr <| ht.imp fun r r' h => ?_
    have hstep := h.step (ha nonce hnonce) hencrypt
    by_cases hr : r'.id = (c.actor.workspace_id, secret.1)
    case pos =>
      rw [if_pos hr] at hstep
      rw [if_pos (decide_eq_true hr)]
      exact hstep
    case neg =>
      rw [if_neg hr] at hstep
      rw [if_neg fun h => hr <| of_decide_eq_true h]
      exact hstep

end Rewriting

-- What the rows are once a migration has returned.
structure Migrated (P : Primitives) (c : SecretStore) (is_postgres : Bool) (s t : State) : Prop where
  rows : List.Forall₂ (Preserved P c) s.secret_refs.rows t.secret_refs.rows
  none : ∀ r ∈ t.secret_refs.rows, r.workspace_id = c.actor.workspace_id →
    like_v1 is_postgres r.ciphertext = true

theorem migrated_of_rewritten
    (hdecoded : (s.secret_refs.rows.filter fun r =>
      r.workspace_id = c.actor.workspace_id && !like_v1 is_postgres r.ciphertext).mapM (c.decode P) =
        .ok decoded)
    (h : List.Forall₂ (Rewritten P c decoded) s.secret_refs.rows t.secret_refs.rows) :
    Migrated P c is_postgres s t := by
  have hforall := mapM_eq_ok_iff.mp hdecoded
  -- A secret that was decoded comes from the one row that has its id.
  have hsource : ∀ r ∈ s.secret_refs.rows, r.workspace_id = c.actor.workspace_id → ∀ value,
      (r.secret_id, value) ∈ decoded → like_v1 is_postgres r.ciphertext = false ∧
        _decrypt_legacy P c.key r.ciphertext = .ok value := by
    intro r hr hworkspace value hmem
    obtain ⟨row, hrow, hdecode⟩ := hforall.exists_of_mem_right hmem
    obtain ⟨hid, hvalue⟩ := decode_eq_ok hdecode
    obtain ⟨hrow, hselected⟩ := List.mem_filter.mp hrow
    obtain ⟨hworkspace', hlike⟩ := Bool.and_eq_true_iff.mp hselected
    have hsame : r = row := Table.eq_of_key_eq hr hrow <|
      Prod.ext (hworkspace.trans (of_decide_eq_true hworkspace').symm) hid
    rw [hsame]
    exact ⟨(Bool.not_eq_true' _).mp hlike, hvalue⟩
  have hselected : ∀ r ∈ s.secret_refs.rows, r.workspace_id = c.actor.workspace_id →
      like_v1 is_postgres r.ciphertext = false → ∃ value, (r.secret_id, value) ∈ decoded := by
    intro r hr hworkspace hlike
    have hmem : r ∈ s.secret_refs.rows.filter fun r =>
        r.workspace_id = c.actor.workspace_id && !like_v1 is_postgres r.ciphertext := by
      refine List.mem_filter.mpr ⟨hr, ?_⟩
      rw [hlike, decide_eq_true hworkspace]
      rfl
    obtain ⟨⟨id, value⟩, hvalue, hdecode⟩ := hforall.exists_of_mem_left hmem
    exact ⟨value, (decode_eq_ok hdecode).left ▸ hvalue⟩
  have hdecoded : ∀ r ∈ s.secret_refs.rows, r.secret_id ∈ decoded.map (·.1) →
      r.workspace_id = c.actor.workspace_id → ∃ value, (r.secret_id, value) ∈ decoded := by
    intro r _ hmem _
    obtain ⟨⟨_, value⟩, hmem, rfl⟩ := List.mem_map.mp hmem
    exact ⟨value, hmem⟩
  have hrow : ∀ r ∈ s.secret_refs.rows, ∀ r', Rewritten P c decoded r r' →
      Preserved P c r r' ∧
        (r'.workspace_id = c.actor.workspace_id → like_v1 is_postgres r'.ciphertext = true) := by
    intro r hr r' h
    by_cases hmem : r.workspace_id = c.actor.workspace_id ∧ r.secret_id ∈ decoded.map (·.1)
    case pos =>
      obtain ⟨hworkspace, hmem⟩ := hmem
      obtain ⟨_, hmem⟩ := hdecoded r hr hmem hworkspace
      obtain ⟨value, hmem, hdecrypt, hprefix, hr'⟩ := h.changed hworkspace _ hmem
      obtain ⟨hlegacy, hheld⟩ := decrypt_legacy_eq_ok_iff.mp (hsource r hr hworkspace value hmem).right
      refine ⟨⟨fun _ => ⟨value, hheld, fun _ h' => h'.unique hlegacy hheld, hdecrypt, hr'⟩, ?_⟩,
        fun _ => like_v1_of_prefix hprefix⟩
      exact fun hnot => absurd ⟨hworkspace, hlegacy⟩ hnot
    case neg =>
      have hr' := h.kept <| not_and_or.mp hmem
      have hlike : r.workspace_id = c.actor.workspace_id →
          like_v1 is_postgres r.ciphertext = true := by
        intro hworkspace
        by_contra hlike
        obtain ⟨value, hvalue⟩ := hselected r hr hworkspace (Bool.eq_false_iff.mpr hlike)
        exact hmem ⟨hworkspace, List.mem_map.mpr ⟨_, hvalue, rfl⟩⟩
      rw [hr']
      refine ⟨⟨fun hlegacy => ?_, fun _ => rfl⟩, hlike⟩
      have := (hlike hlegacy.left).symm.trans <| like_v1_of_legacy hlegacy.right
      cases this
  have hrows := h.imp_of_mem fun r hr r' _ => hrow r hr r'
  constructor
  case rows => exact hrows.imp fun _ _ h => h.left
  case none =>
    intro r' hr'
    obtain ⟨r, -, h⟩ := hrows.exists_of_mem_right hr'
    exact h.right

theorem wp_migrate (ha : ∀ nonce, allow .token_bytes nonce → List.length nonce = 12) :
    (c.migrate_legacy_secrets P).wp (.returns (store is_postgres) allow)
      (fun _ t => Migrated P c is_postgres s t) s := by
  rw [SecretStore.migrate_legacy_secrets, wp_bind, Prog.wp_ofExcept]
  split
  case h_2 => trivial
  case h_1 =>
    dsimp only
    split
    case isTrue => trivial
    refine (wp_bind _ _ _).mpr <| wp_execute fun rows u hp => ?_
    cases hp
    rw [wp_bind, Prog.wp_ofExcept]
    cases hdecoded : List.mapM (c.decode P) _ with
    | error e    => trivial
    | ok decoded =>
      dsimp only
      rw [wp_bind]
      let I (past : List (String × String)) (t : (store is_postgres).State) : Prop :=
        List.Forall₂ (Rewritten P c past) s.secret_refs.rows t.secret_refs.rows
      have hnil : I [] s := by
        refine List.forall₂_same.mpr fun r _ => ⟨fun _ _ h => absurd h List.not_mem_nil, ?_⟩
        exact fun _ => rfl
      refine wp_mono (fun _ t ht => migrated_of_rewritten hdecoded ht) <|
        wp_forM (I := I) decoded (fun past secret t ht => ?_) hnil
      exact wp_re_encrypt ha ht

-- Where nothing is selected, nothing is written.
theorem wp_migrate_none (hnone : ∀ r ∈ s.secret_refs.rows, r.workspace_id = c.actor.workspace_id →
    like_v1 is_postgres r.ciphertext = true) :
    (c.migrate_legacy_secrets P).wp (.returns (store is_postgres) allow) (fun _ t => t = s) s := by
  rw [SecretStore.migrate_legacy_secrets, wp_bind, Prog.wp_ofExcept]
  split
  case h_2 => trivial
  case h_1 =>
    dsimp only
    split
    case isTrue => trivial
    refine (wp_bind _ _ _).mpr <| wp_execute fun rows u hp => ?_
    have hrows : (s.secret_refs.rows.filter fun r =>
        r.workspace_id = c.actor.workspace_id && !like_v1 is_postgres r.ciphertext) = [] := by
      refine List.filter_eq_nil_iff.mpr fun r hr hselected => ?_
      obtain ⟨hworkspace, hlike⟩ := Bool.and_eq_true_iff.mp hselected
      rw [hnone r hr <| of_decide_eq_true hworkspace] at hlike
      cases hlike
    dsimp only at hp
    rw [hrows] at hp
    cases hp
    exact rfl

namespace Prototype

def primitives : Primitives where
  hmac            := fun _ _ => List.replicate 32 0
  encrypt         := fun _ _ data _ => some <| data ++ List.replicate 16 0
  decrypt         := fun _ _ data _ => some <| data.take (data.length - 16)
  dumps           := fun _ => ""
  hmac_length     := fun _ _ => rfl
  decrypt_encrypt := by
    rintro _ _ data _ _ ⟨⟩
    rw [List.length_append, List.length_replicate, Nat.add_sub_cancel, List.take_left]
  encrypt_length  := by
    rintro _ _ data _ _ ⟨⟩
    rw [List.length_append, List.length_replicate]

def owner : SecretStore :=
  ⟨⟨"owner", "w", .owner⟩, [], "proxy"⟩

-- The only secret is a letter, in the envelope of the prototype.
def letter : SecretRef where
  workspace_id          := "w"
  secret_id             := "s"
  secret_type           := "provider_api_key"
  ciphertext            := String.ofList <| Base64.encode <| List.replicate 48 0 ++ [107]
  allowed_services_json := "[\"proxy\"]"
  key_id                := KEY_ID

def state : State where
  secret_refs  := ⟨[letter], List.nodup_singleton _⟩
  secret_audit := .empty

def env : ∀ q, sql.Answer q
  | .token_bytes => List.replicate 12 0
  | .uuid4       => "a"
  | .now         => ""

def allowed : ∀ q, sql.Answer q → Prop :=
  fun q a => a = env q

theorem length_of_allowed (nonce : Bytes) (h : allowed .token_bytes nonce) : nonce.length = 12 := by
  have hnonce : nonce = List.replicate 12 0 := h
  rw [hnonce]
  rfl

def transaction : State × Prog.Outcome Error ℕ :=
  (owner.migrate_legacy_secrets primitives).transact (store false) env 3 state

theorem transaction_ok : transaction.2 = .ok 1 := by
  decide +kernel

end Prototype

end Secrets
