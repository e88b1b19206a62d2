import Mathlib.Data.List.Dedup
import Mathlib.Data.List.Infix
import Traceline.Library.Forall2
import Traceline.Targets.Theorems.Accepted
import Traceline.Targets.Theorems.Mappings

-- What a request mapping shows of the answers that an input holds.
namespace Targets

open Except (bind_eq_ok_iff)
open Plans (Fields assign or_empty)

mutual

-- A document without the values under the keys of the answers.
def mask : Json → Json
  | .arr xs  => .arr <| mask_list xs
  | .obj kvs => .obj <| mask_fields kvs
  | j        => j

def mask_list : List Json → List Json
  | []      => []
  | x :: xs => mask x :: mask_list xs

def mask_fields : Fields → Fields
  | []            => []
  | (k, v) :: kvs => (k, if k ∈ GOLDEN_KEYS then .null else mask v) :: mask_fields kvs

end

-- What `str` and `lower` keep of the strings of a mapping: the texts of slashes and small letters.
structure Libraries.Shows (L : Libraries) : Prop where
  str   : ∀ {kvs : Fields} {k s needle : String}, (k, .str s) ∈ kvs →
    (∀ c ∈ needle.toList, c = '/' ∨ c.isLower) → occurs needle s → occurs needle (L.str (.obj kvs))
  lower : ∀ {text needle : String},
    (∀ c ∈ needle.toList, c = '/' ∨ c.isLower) → occurs needle text → occurs needle (L.lower text)

-- Inputs that differ in their answers only come to one body, or to none.
def Hidden (L : Libraries) (mapping : Json) : Prop :=
  ∀ a b, mask a = mask b → (apply_request_mapping L a mapping).toOption =
    (apply_request_mapping L b mapping).toOption

-- The entries of a mapping that can be applied to some input.
def Sound (kv : String × Json) : Prop :=
  kv.1.toList.head? = some '/' ∧ destination_token kv.1 ∉ GOLDEN_KEYS ∧
    ∀ s, kv.2 = .str s → s = "" ∨ s.toList.head? = some '/'

-- An entry takes its value from the input, and no later one goes to the same field.
def Taken (kvs : Fields) : Prop :=
  ∃ l kv r, kvs = l ++ kv :: r ∧ kv.2.string?.isSome ∧
    ∀ kv' ∈ r, destination_token kv'.1 ≠ destination_token kv.1

-- A mapping that can be applied and that puts a part of the input into the body.
def Leaks (mapping : Json) : Prop :=
  ∃ kvs, mapping = .obj kvs ∧ (∀ kv ∈ kvs, Sound kv) ∧ Taken kvs

section

variable {L : Libraries} {j v v' a b : Json} {t s w : String} {ts : List String}
variable {kvs later body body' : Fields} {kv : String × Json} {raw cs : List Char}

theorem occurs_iff {needle text : String} :
    occurs needle text ↔ needle.toList <:+: text.toList := by
  rw [occurs, List.any_eq_true, List.infix_iff_prefix_suffix]
  constructor
  · rintro ⟨t, ht, hprefix⟩
    exact ⟨t, List.isPrefixOf_iff_prefix.mp hprefix, (List.mem_tails _ _).mp ht⟩
  · rintro ⟨t, hprefix, hsuffix⟩
    exact ⟨t, (List.mem_tails _ _).mpr hsuffix, List.isPrefixOf_iff_prefix.mpr hprefix⟩

-- What replaces a pair is in the text where there was one.
theorem mem_replace_pair {first second new : Char} (h : [first, second] <:+: cs) :
    new ∈ replace_pair first second new cs := by
  fun_induction replace_pair first second new cs with
  | case1                => simp at h
  | case2                => simp [List.infix_cons_iff] at h
  | case3                => exact .head _
  | case4 c d text hc ih =>
    rcases List.infix_cons_iff.mp h with ⟨t, ht⟩ | h
    · obtain ⟨hfirst, hrest⟩ := List.cons.inj ht
      exact absurd ⟨hfirst.symm, (List.cons.inj hrest).left.symm⟩ hc
    · exact .tail _ (ih h)

theorem unescape_eq_self (hslash : '/' ∉ (unescape raw).toList)
    (htilde : '~' ∉ (unescape raw).toList) : unescape raw = String.ofList raw := by
  rw [unescape, String.toList_ofList] at hslash htilde
  have hsecond : replace_pair '~' '0' '~' (replace_pair '~' '1' '/' raw) =
      replace_pair '~' '1' '/' raw :=
    replace_pair_eq_self_iff.mpr fun h => htilde (mem_replace_pair h)
  rw [hsecond] at hslash
  have hfirst : replace_pair '~' '1' '/' raw = raw :=
    replace_pair_eq_self_iff.mpr fun h => hslash (mem_replace_pair h)
  rw [unescape, hsecond, hfirst]

theorem infix_flatMap {α β : Type*} {f : α → List β} {l : List α} {x : α} (h : x ∈ l) :
    f x <:+: l.flatMap f := by
  obtain ⟨p, q, rfl⟩ := List.append_of_mem h
  rw [List.flatMap_append, List.flatMap_cons]
  exact ⟨p.flatMap f, q.flatMap f, by rw [List.append_assoc]⟩

theorem cons_intercalate {raws : List (List Char)} (h : raws ≠ []) :
    '/' :: ['/'].intercalate raws = raws.flatMap ('/' :: ·) := by
  induction raws with
  | nil           => exact absurd rfl h
  | cons x xs ih  =>
    cases xs with
    | nil       => simp [List.intercalate]
    | cons y ys =>
      rw [List.flatMap_cons, ← ih (List.cons_ne_nil _ _)]
      simp [List.intercalate]

-- Every token of a pointer is in its text, behind a slash.
theorem infix_of_mem_splitOn (h : raw ∈ cs.splitOn '/') : '/' :: raw <:+: '/' :: cs := by
  have hsplit : '/' :: cs = (cs.splitOn '/').flatMap ('/' :: ·) := by
    rw [← cons_intercalate (List.splitOn_ne_nil _ _), List.intercalate_splitOn]
  rw [hsplit]
  exact infix_flatMap (f := ('/' :: ·)) h

theorem occurs_of_mem_tokens (hs : s.toList.head? = some '/') (ht : t ∈ tokens s)
    (hslash : '/' ∉ t.toList) (htilde : '~' ∉ t.toList) : occurs ("/" ++ t) s := by
  obtain ⟨cs, hcs⟩ := List.head?_eq_some_iff.mp hs
  rw [tokens, hcs, List.drop_one, List.tail_cons] at ht
  obtain ⟨raw, hraw, rfl⟩ := List.mem_map.mp ht
  have htext : ("/" ++ unescape raw).toList = '/' :: raw := by
    rw [unescape_eq_self hslash htilde, String.toList_append, String.toList_ofList,
      String.toList_ofList]
    rfl
  rw [occurs_iff, hcs, htext]
  exact infix_of_mem_splitOn hraw

theorem golden_lower (ht : t ∈ GOLDEN_KEYS) : ∀ c ∈ ("/" ++ t).toList, c = '/' ∨ c.isLower := by
  have hall : GOLDEN_KEYS.all fun t => ("/" ++ t).toList.all fun c => c == '/' || c.isLower := by
    decide +kernel
  intro c hc
  have := List.all_eq_true.mp (List.all_eq_true.mp hall t ht) c hc
  simpa using this

theorem golden_free (ht : t ∈ GOLDEN_KEYS) : '/' ∉ t.toList ∧ '~' ∉ t.toList := by
  revert t
  decide

theorem reject_golden_mapping_ok {mapping : Json} (h : reject_golden_mapping L mapping = .ok ())
    (ht : t ∈ GOLDEN_KEYS) : ¬ occurs ("/" ++ t) (L.lower (L.str mapping)) := by
  have hkey := Except.forM_eq_ok_iff.mp h t ht
  obtain ⟨b, -, hkey⟩ := bind_eq_ok_iff.mp hkey
  exact fun ho => check_eq_ok_iff.mp hkey (.inr ho)

-- No pointer of an accepted mapping has the name of an answer among its tokens.
theorem tokens_of_accepted (hL : L.Shows) (h : reject_golden_mapping L (.obj kvs) = .ok ())
    (hkv : kv ∈ kvs) (hs : kv.2 = .str s) (hhead : s.toList.head? = some '/') :
    ∀ t ∈ tokens s, t ∉ GOLDEN_KEYS := by
  intro t ht hgold
  obtain ⟨hslash, htilde⟩ := golden_free hgold
  have hmem : (kv.1, .str s) ∈ kvs := hs ▸ hkv
  refine reject_golden_mapping_ok h hgold ?_
  exact hL.lower (golden_lower hgold) <| hL.str hmem (golden_lower hgold) <|
    occurs_of_mem_tokens hhead ht hslash htilde

theorem mask_list_eq {xs : List Json} : mask_list xs = xs.map mask := by
  induction xs with
  | nil          => rfl
  | cons x xs ih => rw [mask_list, ih, List.map_cons]

theorem mask_fields_eq : mask_fields kvs =
    kvs.map fun kv => (kv.1, if kv.1 ∈ GOLDEN_KEYS then .null else mask kv.2) := by
  induction kvs with
  | nil            => rfl
  | cons kv kvs ih => rw [mask_fields, ih, List.map_cons]

theorem lookup_mask_fields (ht : t ∉ GOLDEN_KEYS) :
    (mask_fields kvs).lookup t = (kvs.lookup t).map mask := by
  induction kvs with
  | nil          => rfl
  | cons kv kvs ih =>
    obtain ⟨k, v⟩ := kv
    rw [mask_fields, List.lookup_cons, List.lookup_cons]
    by_cases hk : t = k
    case pos =>
      subst hk
      simp [ht]
    case neg =>
      have hkk : (t == k) = false := by simpa using hk
      rw [hkk]
      exact ih

theorem follow_mask (ht : t ∉ GOLDEN_KEYS) : follow L (mask j) t = (follow L j t).map mask := by
  cases j with
  | arr xs  =>
    rw [mask, mask_list_eq, follow, follow]
    cases L.int t with
    | none       => rfl
    | some index =>
      dsimp only
      split
      case isTrue  => rfl
      case isFalse =>
        rw [List.getElem?_map]
        cases xs[index.toNat]? <;> rfl
  | obj kvs =>
    rw [mask, follow, follow]
    rw [lookup_mask_fields ht]
    cases kvs.lookup t <;> rfl
  | _       => rfl

theorem run_mask (hts : ∀ t ∈ ts, t ∉ GOLDEN_KEYS) :
    ts.foldlM (follow L) (mask j) = (ts.foldlM (follow L) j).map mask := by
  induction ts generalizing j with
  | nil          => rfl
  | cons t ts ih =>
    obtain ⟨ht, hts⟩ := List.forall_mem_cons.mp hts
    rw [List.foldlM_cons, List.foldlM_cons, follow_mask ht]
    cases follow L j t with
    | error e => rfl
    | ok x    => exact ih hts

theorem envelope_mask : envelope (mask j) = mask (envelope j) := by
  have hinput : "input" ∉ GOLDEN_KEYS := by decide
  have hget : ((mask j).get? "input").isSome = (j.get? "input").isSome := by
    cases j with
    | obj kvs =>
      have hlookup := @lookup_mask_fields _ kvs hinput
      simp only [mask, Json.get?, hlookup, Option.isSome_map]
    | _       => rfl
  unfold envelope
  rw [hget]
  split
  case isTrue  => rfl
  case isFalse => simp only [mask, mask_fields, if_neg hinput]

-- What a pointer that names no answer leads to is masked with the input.
theorem source_mask (hs : s.toList.head? = some '/' → ∀ t ∈ tokens s, t ∉ GOLDEN_KEYS) :
    source_value L (envelope (mask j)) (.str s) =
      (source_value L (envelope j) (.str s)).map mask := by
  rw [envelope_mask]
  unfold source_value apply_pointer
  dsimp only
  split
  case isTrue  => rfl
  case isFalse =>
    split
    case isTrue       => rfl
    case isFalse hone => exact run_mask (hs (Classical.not_not.mp hone))

-- Two bodies that are alike but in the fields that the entries to come go to.
def Shadowed (later : Fields) (x y : String × Json) : Prop :=
  x.1 = y.1 ∧ (x.2 = y.2 ∨ ∃ kv ∈ later, destination_token kv.1 = x.1)

theorem mem_assign {x : String × Json} (h : x ∈ assign t v body) : x = (t, v) ∨ x ∈ body := by
  induction body with
  | nil             => exact .inl (List.mem_singleton.mp h)
  | cons kv body ih =>
    unfold assign at h
    split at h
    case isTrue  =>
      rcases List.mem_cons.mp h with hx | hx
      · exact .inl hx
      · exact .inr (.tail _ hx)
    case isFalse =>
      rcases List.mem_cons.mp h with hx | hx
      · exact .inr (hx ▸ .head _)
      · exact (ih hx).imp_right (.tail _)

theorem nodup_assign (h : (body.map (·.1)).Nodup) : ((assign t v body).map (·.1)).Nodup := by
  induction body with
  | nil             => exact List.nodup_singleton _
  | cons kv body ih =>
    rw [List.map_cons, List.nodup_cons] at h
    unfold assign
    split
    case isTrue hkv  =>
      rw [List.map_cons, List.nodup_cons]
      exact ⟨hkv ▸ h.left, h.right⟩
    case isFalse hkv =>
      rw [List.map_cons, List.nodup_cons]
      refine ⟨fun hmem => ?_, ih h.right⟩
      obtain ⟨x, hx, hkey⟩ := List.mem_map.mp hmem
      rcases mem_assign hx with rfl | hx
      · exact hkv hkey.symm
      · exact h.left (hkey ▸ List.mem_map_of_mem hx)

theorem Shadowed.of_ne {x y : String × Json} (h : Shadowed (kv :: later) x y)
    (hne : destination_token kv.1 ≠ x.1) : Shadowed later x y := by
  refine ⟨h.left, h.right.imp_right ?_⟩
  rintro ⟨kv', hkv', he⟩
  rcases List.mem_cons.mp hkv' with rfl | hkv'
  · exact absurd he hne
  · exact ⟨kv', hkv', he⟩

theorem shadowed_assign (h : List.Forall₂ (Shadowed (kv :: later)) body body')
    (hnodup : (body.map (·.1)).Nodup)
    (hv : v = v' ∨ ∃ kv' ∈ later, destination_token kv'.1 = destination_token kv.1) :
    List.Forall₂ (Shadowed later) (assign (destination_token kv.1) v body)
      (assign (destination_token kv.1) v' body') := by
  induction h with
  | nil                          => exact .cons ⟨rfl, hv⟩ .nil
  | @cons x y body body' hxy h ih =>
    rw [List.map_cons, List.nodup_cons] at hnodup
    unfold assign
    rw [← hxy.left]
    split
    case isTrue hx  =>
      refine .cons ⟨rfl, hv⟩ (h.imp_of_mem fun z hz _ _ hc => hc.of_ne fun he => ?_)
      exact hnodup.left (hx.trans he ▸ List.mem_map_of_mem hz)
    case isFalse hx => exact .cons (hxy.of_ne (Ne.symm hx)) (ih hnodup.right)

theorem eq_of_shadowed (h : List.Forall₂ (Shadowed []) body body') : body = body' := by
  induction h with
  | nil           => rfl
  | cons hxy _ ih => rw [Prod.ext hxy.left (hxy.right.resolve_right (by simp)), ih]

theorem not_taken_cons (h : ¬ Taken (kv :: kvs)) :
    ¬ Taken kvs ∧ (kv.2.string?.isSome → ∃ kv' ∈ kvs, destination_token kv'.1 = destination_token kv.1) := by
  constructor
  · rintro ⟨l, kv', r, rfl, htaken⟩
    exact h ⟨kv :: l, kv', r, rfl, htaken⟩
  · intro hs
    by_contra hno
    push Not at hno
    exact h ⟨[], kv, kvs, rfl, hs, hno⟩

theorem map_field_toOption : (map_field L a body kv).toOption =
    if kv.1.toList.head? = some '/' ∧ destination_token kv.1 ∉ GOLDEN_KEYS then
      (source_value L a kv.2).toOption.map fun v => assign (destination_token kv.1) v body
    else none := by
  have hfield : map_field L a body kv = do
      check (kv.1.toList.head? = some '/') <|
        mapping_error "Request mapping destinations must be JSON Pointers"
      let value ← source_value L a kv.2
      check (destination_token kv.1 ∉ GOLDEN_KEYS) <|
        .workflow_error "golden_mapping_forbidden"
          "Expected labels cannot be mapped into agent-visible fields"
      return assign (destination_token kv.1) value body := rfl
  rw [hfield, check, check]
  by_cases hhead : kv.1.toList.head? = some '/'
  case pos =>
    by_cases hgold : destination_token kv.1 ∉ GOLDEN_KEYS
    case pos =>
      rw [if_pos hhead, if_pos hgold, if_pos ⟨hhead, hgold⟩]
      cases source_value L a kv.2 <;> rfl
    case neg =>
      rw [if_pos hhead, if_neg hgold, if_neg fun h => hgold h.right]
      cases source_value L a kv.2 <;> rfl
  case neg =>
    have hneg : ¬ (kv.1.toList.head? = some '/' ∧ destination_token kv.1 ∉ GOLDEN_KEYS) :=
      fun h => hhead h.left
    rw [if_neg hhead, if_neg hneg]
    rfl

theorem run_cons_toOption : ((kv :: kvs).foldlM (map_field L a) body).toOption =
    (map_field L a body kv).toOption.bind fun body => (kvs.foldlM (map_field L a) body).toOption := by
  rw [List.foldlM_cons]
  cases map_field L a body kv <;> rfl

-- Two inputs that a pointer finds alike but for the answers.
def Agree (L : Libraries) (a b source : Json) : Prop :=
  (source_value L a source).toOption.map mask = (source_value L b source).toOption.map mask

theorem toOption_map {ε α β : Type} {x : Except ε α} {f : α → β} : (x.map f).toOption = x.toOption.map f := by
  cases x <;> rfl

theorem run_toOption (hagree : ∀ kv ∈ kvs, Agree L a b kv.2) (htaken : ¬ Taken kvs)
    (h : List.Forall₂ (Shadowed kvs) body body') (hnodup : (body.map (·.1)).Nodup) :
    (kvs.foldlM (map_field L a) body).toOption = (kvs.foldlM (map_field L b) body').toOption := by
  induction kvs generalizing body body' with
  | nil            =>
    rw [eq_of_shadowed h]
    rfl
  | cons kv kvs ih =>
    obtain ⟨hkv, hkvs⟩ := List.forall_mem_cons.mp hagree
    obtain ⟨htaken, hlater⟩ := not_taken_cons htaken
    rw [run_cons_toOption, run_cons_toOption, map_field_toOption, map_field_toOption]
    split
    case isFalse => rfl
    case isTrue  =>
      unfold Agree at hkv
      cases hv : (source_value L a kv.2).toOption with
      | none   =>
        rw [hv, Option.map_none] at hkv
        rw [Option.map_eq_none_iff.mp hkv.symm]
        rfl
      | some v =>
        rw [hv, Option.map_some] at hkv
        obtain ⟨v', hv', -⟩ := Option.map_eq_some_iff.mp hkv.symm
        rw [hv']
        refine ih hkvs htaken (shadowed_assign h hnodup ?_) (nodup_assign hnodup)
        -- A literal is the same in both, a value of the input is overwritten later.
        cases hs : kv.2.string? with
        | some s => exact .inr (hlater (by rw [hs]; rfl))
        | none   =>
          refine .inl (Option.some.inj (hv.symm.trans (Eq.trans ?_ hv')))
          cases hkv2 : kv.2 with
          | str s => rw [hkv2] at hs; cases hs
          | _     => rfl

theorem sound_of_run (h : kvs.foldlM (map_field L a) body = .ok body') : ∀ kv ∈ kvs, Sound kv := by
  induction kvs generalizing body with
  | nil            => exact List.forall_mem_nil _
  | cons kv kvs ih =>
    rw [List.foldlM_cons] at h
    obtain ⟨body₁, h₁, h⟩ := bind_eq_ok_iff.mp h
    obtain ⟨hhead, v, hv, hgold, -⟩ := map_field_eq_ok h₁
    refine List.forall_mem_cons.mpr ⟨⟨hhead, hgold, fun s hs => ?_⟩, ih h⟩
    rw [hs] at hv
    unfold source_value apply_pointer at hv
    dsimp only at hv
    split at hv
    case isTrue hempty => exact .inl hempty
    case isFalse       =>
      split at hv
      case isTrue       => cases hv
      case isFalse hone => exact .inr (Classical.not_not.mp hone)

theorem run_ok (h : ∀ kv ∈ kvs, Sound kv ∧ ∃ v, source_value L a kv.2 = .ok v) :
    ∃ body', kvs.foldlM (map_field L a) body = .ok body' := by
  induction kvs generalizing body with
  | nil            => exact ⟨body, rfl⟩
  | cons kv kvs ih =>
    obtain ⟨⟨⟨hhead, hgold, -⟩, v, hv⟩, hkvs⟩ := List.forall_mem_cons.mp h
    have hfield : map_field L a body kv = .ok (assign (destination_token kv.1) v body) := by
      have hoption := @map_field_toOption L a body kv
      rw [if_pos ⟨hhead, hgold⟩, hv] at hoption
      cases hm : map_field L a body kv with
      | error e => rw [hm] at hoption; cases hoption
      | ok body => rw [hm] at hoption; exact congrArg _ (Option.some.inj hoption)
    rw [List.foldlM_cons, hfield]
    exact ih hkvs

-- The last entry that goes to a field is found there.
theorem lookup_run_of_last {l r : Fields}
    (h : (l ++ kv :: r).foldlM (map_field L a) body = .ok body')
    (hlast : ∀ kv' ∈ r, destination_token kv'.1 ≠ destination_token kv.1) :
    ∃ v, source_value L a kv.2 = .ok v ∧ body'.lookup (destination_token kv.1) = some v := by
  rw [List.foldlM_append] at h
  obtain ⟨body₁, -, h⟩ := bind_eq_ok_iff.mp h
  rw [List.foldlM_cons] at h
  obtain ⟨body₂, h₂, h⟩ := bind_eq_ok_iff.mp h
  obtain ⟨-, v, hv, -, rfl⟩ := map_field_eq_ok h₂
  exact ⟨v, hv, by rw [lookup_run_of_forall_ne h hlast, lookup_assign, if_pos rfl]⟩

-- An input in which every path of the keys leads on, with an answer at every level.
def nested (keys : List String) (answer : Json) : ℕ → Json
  | 0     => .obj [("expected", answer)]
  | n + 1 => .obj (("expected", answer) :: keys.map fun k => (k, nested keys answer n))

theorem mask_nested {keys : List String} {n : ℕ} :
    mask (nested keys v n) = mask (nested keys v' n) := by
  have hgold : "expected" ∈ GOLDEN_KEYS := by decide
  induction n with
  | zero      => simp only [nested, mask, mask_fields, if_pos hgold]
  | succ n ih =>
    simp only [nested, mask, mask_fields_eq, List.map_cons, List.map_map, if_pos hgold]
    have hcomp : ∀ k, (((fun kv => (kv.1, if kv.1 ∈ GOLDEN_KEYS then .null else mask kv.2)) ∘
        fun k => (k, nested keys v n)) k : String × Json) =
        ((fun kv => (kv.1, if kv.1 ∈ GOLDEN_KEYS then .null else mask kv.2)) ∘
        fun k => (k, nested keys v' n)) k := fun k => by
      simp only [Function.comp_apply, ih]
    rw [funext hcomp]

theorem nested_injective {keys : List String} {n : ℕ} (h : nested keys v n = nested keys v' n) :
    v = v' := by
  cases n with
  | zero   =>
    obtain ⟨hfirst, -⟩ := List.cons.inj (Json.obj.inj h)
    exact (Prod.mk.inj hfirst).right
  | succ n =>
    obtain ⟨hfirst, -⟩ := List.cons.inj (Json.obj.inj h)
    exact (Prod.mk.inj hfirst).right

theorem lookup_map_pair {keys : List String} (ht : t ∈ keys) :
    (keys.map fun k => (k, v)).lookup t = some v := by
  induction keys with
  | nil          => cases ht
  | cons k keys ih =>
    rw [List.map_cons, List.lookup_cons]
    by_cases hk : t = k
    case pos => simp [hk]
    case neg =>
      have hkk : (t == k) = false := by simpa using hk
      rw [hkk]
      exact ih ((List.mem_cons.mp ht).resolve_left hk)

theorem run_nested {keys : List String} {n : ℕ} (hkeys : ∀ t ∈ ts, t ∈ keys)
    (hgold : ∀ t ∈ ts, t ∉ GOLDEN_KEYS) (hn : ts.length ≤ n) :
    ts.foldlM (follow L) (nested keys v n) = .ok (nested keys v (n - ts.length)) := by
  induction ts generalizing n with
  | nil          => rfl
  | cons t ts ih =>
    obtain ⟨ht, hts⟩ := List.forall_mem_cons.mp hkeys
    obtain ⟨htgold, htsgold⟩ := List.forall_mem_cons.mp hgold
    cases n with
    | zero   => exact absurd hn (Nat.not_succ_le_zero _)
    | succ n =>
      have hne : (t == "expected") = false := by
        have hexpected : "expected" ∈ GOLDEN_KEYS := by decide
        simpa using fun he : t = "expected" => htgold (he ▸ hexpected)
      have hfollow : follow L (nested keys v (n + 1)) t = .ok (nested keys v n) := by
        rw [nested, follow, List.lookup_cons, hne]
        dsimp only
        rw [lookup_map_pair ht]
      rw [List.foldlM_cons, hfollow, List.length_cons, Nat.add_sub_add_right]
      exact ih hts htsgold (Nat.le_of_succ_le_succ hn)

-- The tokens of the pointers that a mapping takes its values by.
def source_tokens (source : Json) : List String :=
  match source with
  | .str s => if s = "" then [] else tokens s
  | _      => []

theorem source_nested {keys : List String} {n : ℕ} (hinput : "input" ∈ keys) (hs : Sound kv)
    (hkv : kv.2 = .str s) (hkeys : ∀ t ∈ source_tokens kv.2, t ∈ keys)
    (hgold : ∀ t ∈ source_tokens kv.2, t ∉ GOLDEN_KEYS) (hn : (source_tokens kv.2).length ≤ n + 1) :
    source_value L (envelope (nested keys v (n + 1))) kv.2 =
      .ok (nested keys v (n + 1 - (source_tokens kv.2).length)) := by
  have henvelope : envelope (nested keys v (n + 1)) = nested keys v (n + 1) := by
    have hget : ((nested keys v (n + 1)).get? "input").isSome := by
      rw [nested, Json.get?, List.lookup_cons, show ("input" == "expected") = false from rfl]
      dsimp only
      rw [lookup_map_pair hinput]
      rfl
    rw [envelope, if_pos hget]
  rw [henvelope]
  rw [hkv] at hkeys hgold hn ⊢
  unfold source_value apply_pointer
  unfold source_tokens at hkeys hgold hn ⊢
  dsimp only at hkeys hgold hn ⊢
  rcases hs.right.right s hkv with rfl | hhead
  · rfl
  · have hne : s ≠ "" := by
      rintro rfl
      cases hhead
    rw [if_neg hne] at hkeys hgold hn
    rw [if_neg hne, if_neg (fun h => h hhead), if_neg hne]
    exact run_nested hkeys hgold hn

theorem apply_toOption (ht : (Json.obj kvs).truthy) :
    (apply_request_mapping L a (.obj kvs)).toOption =
      (kvs.foldlM (map_field L (envelope a)) []).toOption.map .obj := by
  have happly : apply_request_mapping L a (.obj kvs) = do
      return .obj (← kvs.foldlM (map_field L (envelope a)) []) := by
    rw [apply_request_mapping, if_pos ht]
    rfl
  rw [happly]
  cases kvs.foldlM (map_field L (envelope a)) [] <;> rfl

-- A mapping that takes no part of the input builds the body from the literals.
theorem hidden_of_not_leaks {mapping : Json} (hL : L.Shows) (ht : mapping.truthy)
    (h : reject_golden_mapping L mapping = .ok ()) (hleaks : ¬ Leaks mapping)
    (hmask : mask a = mask b) : (apply_request_mapping L a mapping).toOption =
      (apply_request_mapping L b mapping).toOption := by
  cases mapping with
  | obj kvs =>
    rw [apply_toOption ht, apply_toOption ht]
    by_cases hsound : ∀ kv ∈ kvs, Sound kv
    case neg =>
      have hnone (a : Json) : (kvs.foldlM (map_field L (envelope a)) []).toOption = none := by
        cases hrun : kvs.foldlM (map_field L (envelope a)) [] with
        | error e   => rfl
        | ok fields => exact absurd (sound_of_run hrun) hsound
      rw [hnone a, hnone b]
    case pos =>
      have hagree : ∀ kv ∈ kvs, Agree L (envelope a) (envelope b) kv.2 := by
        intro kv hkv
        cases hs : kv.2 with
        | str s =>
          have htokens := tokens_of_accepted hL h hkv hs
          unfold Agree
          rw [← toOption_map, ← toOption_map, ← source_mask htokens, ← source_mask htokens, hmask]
        | _     => rfl
      have htaken : ¬ Taken kvs := fun htaken => hleaks ⟨kvs, rfl, hsound, htaken⟩
      rw [run_toOption hagree htaken .nil .nil]
  | _       =>
    unfold apply_request_mapping
    rw [if_pos ht, if_pos ht]
    rfl

-- The tokens of all pointers of a mapping.
def pointer_tokens (kvs : Fields) : List String :=
  kvs.flatMap fun kv => source_tokens kv.2

-- The part of an input that is left below so many tokens.
def below (kvs : Fields) (answer : Json) (depth : ℕ) : Json :=
  nested ("input" :: pointer_tokens kvs).dedup answer ((pointer_tokens kvs).length + 1 - depth)

-- An input that every pointer of a mapping leads into.
def revealing (kvs : Fields) (answer : Json) : Json :=
  below kvs answer 0

theorem source_revealing (hL : L.Shows) (h : reject_golden_mapping L (.obj kvs) = .ok ())
    (hsound : ∀ kv ∈ kvs, Sound kv) (hkv : kv ∈ kvs) (hs : kv.2 = .str s) :
    source_value L (envelope (revealing kvs v)) kv.2 =
      .ok (below kvs v (source_tokens kv.2).length) := by
  have hinput : "input" ∈ ("input" :: pointer_tokens kvs).dedup := List.mem_dedup.mpr (.head _)
  have hpart : source_tokens kv.2 <:+: pointer_tokens kvs :=
    infix_flatMap (f := fun kv => source_tokens kv.2) hkv
  refine source_nested hinput (hsound kv hkv) hs
    (fun t ht => List.mem_dedup.mpr (.tail _ (hpart.subset ht))) (fun t ht => ?_)
    (Nat.le_succ_of_le hpart.length_le)
  rw [hs, source_tokens] at ht
  split at ht
  case isTrue     => cases ht
  case isFalse hne =>
    have hhead := ((hsound kv hkv).right.right s hs).resolve_left hne
    exact tokens_of_accepted hL h hkv hs hhead t ht

theorem run_revealing (hL : L.Shows) (h : reject_golden_mapping L (.obj kvs) = .ok ())
    (hsound : ∀ kv ∈ kvs, Sound kv) :
    ∃ body, kvs.foldlM (map_field L (envelope (revealing kvs v))) [] = .ok body := by
  refine run_ok fun kv hkv => ⟨hsound kv hkv, ?_⟩
  cases hs : kv.2 with
  | str s => exact ⟨_, hs ▸ source_revealing hL h hsound hkv hs⟩
  | _     => exact ⟨_, rfl⟩

theorem not_hidden_of_leaks {mapping : Json} (hL : L.Shows) (ht : mapping.truthy)
    (h : reject_golden_mapping L mapping = .ok ()) (hleaks : Leaks mapping) :
    ∃ a b, mask a = mask b ∧ (apply_request_mapping L a mapping).toOption ≠
      (apply_request_mapping L b mapping).toOption := by
  obtain ⟨kvs, rfl, hsound, l, kv, r, hkvs, hstr, hlast⟩ := hleaks
  obtain ⟨s, hs⟩ : ∃ s, kv.2 = .str s := by
    cases hkv : kv.2 with
    | str s => exact ⟨s, rfl⟩
    | _     => rw [hkv] at hstr; cases hstr
  have hmem : kv ∈ kvs := by simp [hkvs]
  have hfound (answer : Json) (body : Fields)
      (hbody : kvs.foldlM (map_field L (envelope (revealing kvs answer))) [] = .ok body) :
      body.lookup (destination_token kv.1) =
        some (below kvs answer (source_tokens kv.2).length) := by
    obtain ⟨v, hv, hlookup⟩ := lookup_run_of_last (by rw [← hkvs]; exact hbody) hlast
    rw [source_revealing hL h hsound hmem hs] at hv
    cases hv
    exact hlookup
  refine ⟨revealing kvs .null, revealing kvs (.bool true), mask_nested, fun heq => ?_⟩
  obtain ⟨body, hbody⟩ := run_revealing (v := .null) hL h hsound
  obtain ⟨body', hbody'⟩ := run_revealing (v := .bool true) hL h hsound
  rw [apply_toOption ht, apply_toOption ht, hbody, hbody'] at heq
  have hsame : body = body' := Json.obj.inj (Option.some.inj heq)
  have hlookup := hfound .null body hbody
  rw [hsame, hfound (.bool true) body' hbody'] at hlookup
  cases nested_injective (Option.some.inj hlookup)

theorem request_mapping_of_accepted {policy : EndpointPolicy} {r2_enabled : Bool}
    {fields content : Fields} (h : Accepted L policy r2_enabled fields content) :
    ∃ mapping, content.lookup "request_mapping" = some mapping ∧
      (mapping.truthy → reject_golden_mapping L mapping = .ok ()) := by
  obtain ⟨c, pin, d, records, hc, -, -, h⟩ := h.inv
  refine ⟨_, content_lookup h rfl, fun ht => ?_⟩
  obtain ⟨mode, -, hc⟩ := bind_eq_ok_iff.mp hc
  dsimp only at hc
  split at hc
  case h_1 => cases hc
  case h_2 =>
    obtain ⟨_, -, hc⟩ := bind_eq_ok_iff.mp hc
    obtain ⟨_, -, hc⟩ := bind_eq_ok_iff.mp hc
    obtain ⟨_, -, hc⟩ := bind_eq_ok_iff.mp hc
    rw [if_pos ht] at hc
    obtain ⟨_, hreject, -⟩ := bind_eq_ok_iff.mp hc
    exact hreject

end

namespace Mapped

def quoted (s : String) : List Char :=
  '\'' :: (s.toList ++ ['\''])

def shown (kv : String × Json) : List Char :=
  quoted kv.1 ++ (": ".toList ++ (kv.2.string?.elim [] quoted))

-- How mappings of strings print.
def libraries : Libraries :=
  { Answering.libraries with
    str := fun j => match j with
      | .obj kvs => String.ofList <| '\x7b' :: ([',', ' '].intercalate (kvs.map shown) ++ ['\x7d'])
      | _        => ""
    lower := fun s => String.ofList <| s.toList.map Char.toLower }

theorem infix_intercalate {α : Type} {sep x : List α} {xs : List (List α)} (h : x ∈ xs) :
    x <:+: sep.intercalate xs := by
  induction xs with
  | nil          => cases h
  | cons y ys ih =>
    cases ys with
    | nil       =>
      rw [List.mem_singleton.mp h]
      simp [List.intercalate]
    | cons z zs =>
      have htail : sep.intercalate (y :: z :: zs) = y ++ sep ++ sep.intercalate (z :: zs) := by
        simp [List.intercalate]
      rw [htail]
      rcases List.mem_cons.mp h with rfl | h
      · exact ⟨[], sep ++ sep.intercalate (z :: zs), by simp⟩
      · exact (ih h).trans (List.suffix_append _ _).isInfix

theorem toLower_self {c : Char} (h : c = '/' ∨ c.isLower) : c.toLower = c := by
  rcases h with rfl | h
  · rfl
  · unfold Char.isLower at h
    simp only [ge_iff_le, Bool.and_eq_true, decide_eq_true_eq] at h
    unfold Char.toLower
    rw [dif_neg]
    rintro ⟨-, hupper⟩
    exact absurd (UInt32.le_trans h.left hupper) (by decide)

theorem infix_shown {kvs : Fields} {kv : String × Json} (h : kv ∈ kvs) :
    shown kv <:+: '\x7b' :: ([',', ' '].intercalate (kvs.map shown) ++ ['\x7d']) := by
  obtain ⟨p, q, hp⟩ := @infix_intercalate _ [',', ' '] _ _ (List.mem_map_of_mem (f := shown) h)
  exact ⟨'\x7b' :: p, q ++ ['\x7d'], by simp [← hp]⟩

theorem shows : libraries.Shows where
  str {_ k s _} hkv _ h := by
    rw [occurs_iff] at h ⊢
    rw [libraries]
    dsimp only
    rw [String.toList_ofList]
    refine (h.trans ?_).trans (infix_shown hkv)
    have hshown : shown (k, .str s) = (quoted k ++ ": ".toList ++ ['\'']) ++ s.toList ++ ['\''] := by
      simp [shown, quoted, Json.string?]
    exact ⟨_, _, hshown.symm⟩
  lower hc h    := by
    rw [occurs_iff] at h ⊢
    rw [libraries]
    dsimp only
    rw [String.toList_ofList]
    have hneedle := List.IsInfix.map Char.toLower h
    rwa [List.map_congr_left fun c hmem => toLower_self (hc c hmem), List.map_id'] at hneedle

def fields (mapping : Json) : Fields :=
  [("url", .str "https://t.example/run"), ("request_mapping", mapping)]

def target (mapping : Json) : Fields :=
  base_content (fields mapping)
    ⟨.stateless_json, .generic_http, .obj [], "https://t.example/run", [("type", .str "none")]⟩
    ⟨"t.example", 443, "https", ["93.184.215.14"]⟩

def configuration (mapping : Json) : Prog sig Fields :=
  create libraries ⟨[]⟩ false (fields mapping)

def run (mapping : Json) : Unit × Prog.Outcome Error Fields :=
  (configuration mapping).run Answering.endpoint Answering.answers 1 ()

theorem exec (mapping : Json) :
    Prog.Exec Answering.endpoint (fun _ _ => True) (configuration mapping) () (run mapping).1
      (run mapping).2 := by
  unfold run
  exact Prog.run_exec (M := Answering.endpoint) (fun _ => trivial) (configuration mapping) 1 ()

theorem accepted {mapping : Json} (h : (run mapping).2 = .ok (target mapping)) :
    Accepted libraries ⟨[]⟩ false (fields mapping) (target mapping) :=
  ⟨_, _, _, _, h ▸ exec mapping⟩

end Mapped

-- A mapping of a literal.
def literal : Json :=
  .obj [("/question", .arr [.str "why?"])]

theorem literal_created : (Mapped.run literal).2 = .ok (Mapped.target literal) := by
  decide

-- A mapping of the whole input.
def whole : Json :=
  .obj [("/question", .str "/input")]

end Targets
