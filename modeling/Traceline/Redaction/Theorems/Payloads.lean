import Traceline.Redaction

-- What a redaction makes of the parts of a payload.
namespace Redaction

-- A part of a document, which no field of a hidden key holds.
inductive Part (hidden : String → Bool) (part : Json) : Json → Prop
  | here : Part hidden part part
  | elem {x : Json} {xs : List Json} : x ∈ xs → Part hidden part x → Part hidden part (.arr xs)
  | field {k : String} {v : Json} {kvs : List (String × Json)} :
    (k, v) ∈ kvs → hidden k = false → Part hidden part v → Part hidden part (.obj kvs)

-- Nothing is hidden.
abbrev Within : Json → Json → Prop :=
  Part fun _ => false

-- The strings of a document, keys included.
def Occurs (s : String) (j : Json) : Prop :=
  Within (.str s) j ∨ ∃ kvs v, Within (.obj kvs) j ∧ (s, v) ∈ kvs

-- The fields of a document, at any depth.
def HasField (k : String) (v : Json) (j : Json) : Prop :=
  ∃ kvs, Within (.obj kvs) j ∧ (k, v) ∈ kvs

namespace Patterns

variable (p : Patterns) (max_string_bytes : ℕ)

-- A text after the four replacements.
def replaced (s : String) : String :=
  let s := (p.canary s).getD s
  let s := (p.provider_token s).getD s
  let s := (p.bearer s).getD s
  (p.secret s).getD s

-- A text as it is kept.
def clean (s : String) : String :=
  (p.clean_text max_string_bytes s {}).1

-- A document as it is kept.
def content (j : Json) : Json :=
  (p.walk max_string_bytes j {}).1

def hide (kv : String × Json) : String × Json :=
  (kv.1, if p.sensitive_key kv.1 then .str "[REDACTED]" else p.content max_string_bytes kv.2)

variable {p : Patterns} {n : ℕ} {s k : String} {j v w : Json} {xs : List Json}
variable {kvs : List (String × Json)} {flags : Flags}

theorem step_fst {sub : String → Option String} {flag : Flags → Flags} {flags : Flags} :
    (clean_text.step sub flag s flags).1 = (sub s).getD s := by
  unfold clean_text.step
  cases sub s <;> rfl

theorem clean_text_eq : (p.clean_text n s flags).1 = if (p.replaced s).utf8ByteSize > n then
    String.ofList (takeBytes (n - "…[TRUNCATED]".utf8ByteSize) (p.replaced s).toList) ++ "…[TRUNCATED]"
    else p.replaced s := by
  unfold clean_text
  dsimp only
  simp only [step_fst]
  rw [replaced]
  split <;> rfl

-- What is kept does not depend on what has been detected.
theorem clean_text_fst : (p.clean_text n s flags).1 = p.clean n s := by
  rw [clean, clean_text_eq, clean_text_eq]

theorem walkList_fst (h : ∀ x ∈ xs, ∀ flags, (p.walk n x flags).1 = p.content n x) :
    (p.walkList n xs flags).1 = xs.map (p.content n) := by
  induction xs generalizing flags with
  | nil          => rfl
  | cons x xs ih =>
    obtain ⟨hx, hxs⟩ := List.forall_mem_cons.mp h
    rw [walkList]
    dsimp only
    rw [hx, ih hxs, List.map_cons]

theorem walkFields_fst (h : ∀ kv ∈ kvs, ∀ flags, (p.walk n kv.2 flags).1 = p.content n kv.2) :
    (p.walkFields n kvs flags).1 = kvs.map (p.hide n) := by
  induction kvs generalizing flags with
  | nil           => rfl
  | cons kv kvs ih =>
    obtain ⟨hkv, hkvs⟩ := List.forall_mem_cons.mp h
    obtain ⟨k, v⟩ := kv
    rw [walkFields]
    dsimp only
    rw [ih hkvs, List.map_cons, hide]
    split
    · rfl
    · rw [hkv]

theorem walk_fst : (p.walk n j flags).1 = p.content n j := by
  induction j using Json.induct generalizing flags with
  | str s     =>
    rw [content, walk, walk]
    dsimp only
    rw [clean_text_fst, clean_text_fst]
  | arr xs h  =>
    have hxs : ∀ x ∈ xs, ∀ flags, (p.walk n x flags).1 = p.content n x := fun x hx _ => h x hx
    rw [content, walk, walk]
    dsimp only
    rw [walkList_fst hxs, walkList_fst hxs]
  | obj kvs h =>
    have hkvs : ∀ kv ∈ kvs, ∀ flags, (p.walk n kv.2 flags).1 = p.content n kv.2 :=
      fun kv hkv _ => h kv hkv
    rw [content, walk, walk]
    dsimp only
    rw [walkFields_fst hkvs, walkFields_fst hkvs]
  | _         => rfl

@[simp]
theorem content_str : p.content n (.str s) = .str (p.clean n s) :=
  rfl

@[simp]
theorem content_arr : p.content n (.arr xs) = .arr (xs.map (p.content n)) := by
  rw [content, walk]
  dsimp only
  rw [walkList_fst fun _ _ _ => walk_fst]

@[simp]
theorem content_obj : p.content n (.obj kvs) = .obj (kvs.map (p.hide n)) := by
  rw [content, walk]
  dsimp only
  rw [walkFields_fst fun _ _ _ => walk_fst]

theorem redact_content : (p.redact n j).content = p.content n j :=
  rfl

theorem content_eq_str (h : p.content n j = .str s) : ∃ l, j = .str l ∧ s = p.clean n l := by
  cases j with
  | str l   =>
    cases h
    exact ⟨l, rfl, rfl⟩
  | arr xs  => simp at h
  | obj kvs => simp at h
  | _       => cases h

theorem content_eq_obj (h : p.content n j = .obj kvs) :
    ∃ kvs', j = .obj kvs' ∧ kvs = kvs'.map (p.hide n) := by
  cases j with
  | obj kvs' => exact ⟨kvs', rfl, by simpa using h.symm⟩
  | arr xs   => simp at h
  | _        => cases h

-- A part of what is kept is a mark, or what is kept of a part that is not hidden.
theorem part_of_content (h : Within v (p.content n j)) :
    v = .str "[REDACTED]" ∨ ∃ w, Part p.sensitive_key w j ∧ v = p.content n w := by
  induction j using Json.induct with
  | arr xs ih  =>
    rw [content_arr] at h
    cases h with
    | here         => exact .inr ⟨_, .here, content_arr.symm⟩
    | elem hx h    =>
      obtain ⟨x, hx', rfl⟩ := List.mem_map.mp hx
      refine (ih x hx' h).imp_right ?_
      rintro ⟨w, hw, rfl⟩
      exact ⟨w, .elem hx' hw, rfl⟩
  | obj kvs ih =>
    rw [content_obj] at h
    cases h with
    | here          => exact .inr ⟨_, .here, content_obj.symm⟩
    | field hkv _ h =>
      obtain ⟨⟨k, w⟩, hkw, heq⟩ := List.mem_map.mp hkv
      rw [hide, Prod.mk.injEq] at heq
      obtain ⟨rfl, rfl⟩ := heq
      by_cases hk : p.sensitive_key k
      case pos =>
        rw [if_pos hk] at h
        cases h
        exact .inl rfl
      case neg =>
        rw [if_neg hk] at h
        refine (ih (k, w) hkw h).imp_right ?_
        rintro ⟨w', hw', rfl⟩
        exact ⟨w', .field hkw (eq_false_of_ne_true hk) hw', rfl⟩
  | _          =>
    cases h
    exact .inr ⟨_, .here, rfl⟩

theorem content_of_part (h : Part p.sensitive_key w j) : Within (p.content n w) (p.content n j) := by
  induction h with
  | here               => exact .here
  | elem hx _ ih       =>
    rw [content_arr]
    exact .elem (List.mem_map_of_mem hx) ih
  | field hkv hk _ ih  =>
    rw [content_obj]
    refine .field (List.mem_map_of_mem hkv) rfl ?_
    rwa [if_neg (ne_true_of_eq_false hk)]

-- The strings that are kept are the mark, the keys that are not hidden, and what is kept of the
-- texts that are not.
theorem occurs_content (h : Occurs s (p.content n j)) : s = "[REDACTED]" ∨
    (∃ kvs v, Part p.sensitive_key (.obj kvs) j ∧ (s, v) ∈ kvs) ∨
    ∃ l, Part p.sensitive_key (.str l) j ∧ s = p.clean n l := by
  rcases h with h | ⟨kvs, v, h, hkv⟩
  · rcases part_of_content h with h | ⟨w, hw, h⟩
    · exact .inl (Json.str.inj h)
    · obtain ⟨l, rfl, hs⟩ := content_eq_str h.symm
      exact .inr <| .inr ⟨l, hw, hs⟩
  · rcases part_of_content h with h | ⟨w, hw, h⟩
    · cases h
    · obtain ⟨kvs, rfl, rfl⟩ := content_eq_obj h.symm
      obtain ⟨⟨k, w⟩, hkw, heq⟩ := List.mem_map.mp hkv
      rw [hide, Prod.mk.injEq] at heq
      obtain ⟨rfl, -⟩ := heq
      exact .inr <| .inl ⟨kvs, w, hw, hkw⟩

theorem occurs_key (h : Part p.sensitive_key (.obj kvs) j) (hkv : (k, v) ∈ kvs) :
    Occurs k (p.content n j) := by
  have hpart := content_of_part (n := n) h
  rw [content_obj] at hpart
  exact .inr ⟨_, _, hpart, List.mem_map_of_mem hkv⟩

theorem occurs_text (h : Part p.sensitive_key (.str s) j) : Occurs (p.clean n s) (p.content n j) :=
  .inl <| content_of_part h

-- No value of a hidden key is kept.
theorem hidden_content (h : HasField k v (p.content n j)) (hk : p.sensitive_key k) :
    v = .str "[REDACTED]" := by
  obtain ⟨kvs, h, hkv⟩ := h
  rcases part_of_content h with h | ⟨w, -, h⟩
  · cases h
  · obtain ⟨kvs, rfl, rfl⟩ := content_eq_obj h.symm
    obtain ⟨⟨k, w⟩, -, heq⟩ := List.mem_map.mp hkv
    rw [hide, Prod.mk.injEq] at heq
    obtain ⟨rfl, rfl⟩ := heq
    rw [if_pos hk]

end Patterns

end Redaction
