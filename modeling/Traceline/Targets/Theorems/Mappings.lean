import Mathlib.Data.List.Nodup
import Traceline.Library.Except
import Traceline.Targets.Theorems.Pinned
import Traceline.Targets.Theorems.Receipts
import Traceline.Targets.Theorems.Tokens

-- Where a request mapping puts the values it takes, and where the destinations say.
namespace Targets

open Except (bind_eq_ok_iff)
open Plans (Fields assign)

section

variable {L : Libraries} {j v w env : Json} {t u d : String} {ts : List String}
variable {kvs body body' : Fields} {kv : String × Json}

theorem follow_eq_ok (h : follow L j t = .ok v) :
    (∃ kvs, j = .obj kvs ∧ kvs.lookup t = some v) ∨ ∃ xs, j = .arr xs ∧ v ∈ xs := by
  unfold follow at h
  dsimp only at h
  cases j with
  | obj kvs =>
    dsimp only at h
    split at h
    case h_1 x hx =>
      cases h
      exact .inl ⟨kvs, rfl, hx⟩
    case h_2      => cases h
  | arr xs  =>
    dsimp only at h
    split at h
    case h_1 => cases h
    case h_2 =>
      split at h
      case isTrue  => cases h
      case isFalse =>
        split at h
        case h_1 x hx =>
          cases h
          exact .inr ⟨xs, rfl, List.mem_of_getElem? hx⟩
        case h_2      => cases h
  | _       => cases h

-- What a token leads to is smaller than what it is in.
theorem sizeOf_follow_lt (h : follow L j t = .ok v) : sizeOf v < sizeOf j := by
  rcases follow_eq_ok h with ⟨kvs, rfl, hv⟩ | ⟨xs, rfl, hv⟩
  · have hmem : (t, v) ∈ kvs := by
      obtain ⟨l₁, l₂, rfl, -⟩ := List.lookup_eq_some_iff.mp hv
      simp
    have hlt := List.sizeOf_lt_of_mem hmem
    simp only [Prod.mk.sizeOf_spec, Json.obj.sizeOf_spec] at hlt ⊢
    omega
  · have hlt := List.sizeOf_lt_of_mem hv
    simp only [Json.arr.sizeOf_spec]
    omega

theorem sizeOf_run_le (h : ts.foldlM (follow L) j = .ok v) : sizeOf v ≤ sizeOf j := by
  induction ts generalizing j with
  | nil          =>
    cases h
    exact le_rfl
  | cons t ts ih =>
    rw [List.foldlM_cons] at h
    obtain ⟨w, hw, h⟩ := bind_eq_ok_iff.mp h
    exact (ih h).trans (sizeOf_follow_lt hw).le

-- No token leads from a value to that value.
theorem run_self (h : ts.foldlM (follow L) v = .ok v) : ts = [] := by
  cases ts with
  | nil       => rfl
  | cons t ts =>
    rw [List.foldlM_cons] at h
    obtain ⟨w, hw, h⟩ := bind_eq_ok_iff.mp h
    exact absurd (sizeOf_run_le h) (Nat.not_le_of_lt (sizeOf_follow_lt hw))

theorem map_field_eq_ok (h : map_field L env body kv = .ok body') :
    kv.1.toList.head? = some '/' ∧ ∃ v, source_value L env kv.2 = .ok v ∧
      destination_token kv.1 ∉ GOLDEN_KEYS ∧ body' = assign (destination_token kv.1) v body := by
  obtain ⟨_, hhead, h⟩ := bind_eq_ok_iff.mp h
  obtain ⟨v, hv, h⟩ := bind_eq_ok_iff.mp h
  obtain ⟨_, hgold, h⟩ := bind_eq_ok_iff.mp h
  cases h
  exact ⟨check_eq_ok_iff.mp hhead, v, hv, check_eq_ok_iff.mp hgold, rfl⟩

-- What a field of the body holds is the value of an entry that goes there, or what was there.
theorem lookup_run (h : kvs.foldlM (map_field L env) body = .ok body')
    (hv : body'.lookup t = some v) : (∃ kv ∈ kvs, destination_token kv.1 = t ∧
      source_value L env kv.2 = .ok v) ∨ body.lookup t = some v := by
  induction kvs generalizing body with
  | nil           =>
    cases h
    exact .inr hv
  | cons kv kvs ih =>
    rw [List.foldlM_cons] at h
    obtain ⟨body₁, h₁, h⟩ := bind_eq_ok_iff.mp h
    obtain ⟨-, v₁, hv₁, -, rfl⟩ := map_field_eq_ok h₁
    rcases ih h with ⟨kv', hkv', ht, hsource⟩ | hbody
    · exact .inl ⟨kv', .tail _ hkv', ht, hsource⟩
    · rw [lookup_assign] at hbody
      split at hbody
      case isTrue ht  =>
        cases hbody
        exact .inl ⟨kv, .head _, ht.symm, hv₁⟩
      case isFalse    => exact .inr hbody

theorem lookup_run_of_forall_ne (h : kvs.foldlM (map_field L env) body = .ok body')
    (hne : ∀ kv ∈ kvs, destination_token kv.1 ≠ t) : body'.lookup t = body.lookup t := by
  induction kvs generalizing body with
  | nil           =>
    cases h
    rfl
  | cons kv kvs ih =>
    obtain ⟨hkv, hkvs⟩ := List.forall_mem_cons.mp hne
    rw [List.foldlM_cons] at h
    obtain ⟨body₁, h₁, h⟩ := bind_eq_ok_iff.mp h
    obtain ⟨-, v₁, -, -, rfl⟩ := map_field_eq_ok h₁
    rw [ih h hkvs, lookup_assign, if_neg hkv.symm]

-- An entry that no other one shares its field with is found there.
theorem lookup_run_of_unique (h : kvs.foldlM (map_field L env) body = .ok body') (hkv : kv ∈ kvs)
    (hunique : ∀ kv' ∈ kvs, destination_token kv'.1 = destination_token kv.1 → kv' = kv) :
    ∃ v, source_value L env kv.2 = .ok v ∧ body'.lookup (destination_token kv.1) = some v := by
  induction kvs generalizing body with
  | nil            => cases hkv
  | cons kv₁ kvs ih =>
    rw [List.foldlM_cons] at h
    obtain ⟨body₁, h₁, h⟩ := bind_eq_ok_iff.mp h
    obtain ⟨-, v₁, hv₁, -, rfl⟩ := map_field_eq_ok h₁
    by_cases hmem : kv ∈ kvs
    case pos => exact ih h hmem fun kv' hkv' => hunique kv' (.tail _ hkv')
    case neg =>
      obtain rfl : kv = kv₁ := (List.mem_cons.mp hkv).resolve_right hmem
      have hne : ∀ kv' ∈ kvs, destination_token kv'.1 ≠ destination_token kv.1 :=
        fun kv' hkv' ht => hmem (hunique kv' (.tail _ hkv') ht ▸ hkv')
      exact ⟨v₁, hv₁, by rw [lookup_run_of_forall_ne h hne, lookup_assign, if_pos rfl]⟩

-- A destination of one token without an escape.
def Flat (d : String) : Prop :=
  ∃ token, d.toList = '/' :: token ∧ '/' ∉ token ∧
    ¬ ['~', '0'] <:+: token ∧ ¬ ['~', '1'] <:+: token

theorem flat_iff {cs : List Char} (h : d.toList = '/' :: cs) :
    Flat d ↔ tokens d = [destination_token d] := by
  obtain ⟨raw, rest, hraw, hfree, htokens, hrest⟩ := tokens_spec h
  rw [htokens, hraw]
  constructor
  · rintro ⟨token, htoken, hslash, hpairs⟩
    obtain rfl := (List.cons.inj (h.symm.trans htoken)).right
    have hcs : raw = cs := by
      rw [destination_token, h, List.drop_one, List.tail_cons] at hraw
      have htake : cs.takeWhile (· ≠ '/') = cs :=
        List.takeWhile_eq_self_iff.mpr fun c hc => by
          simpa using fun he : c = '/' => hslash (he ▸ hc)
      rw [htake] at hraw
      exact (String.ofList_injective hraw).symm
    rw [hrest.mpr hcs, hcs, unescape_eq_self_iff.mpr hpairs]
  · intro heq
    obtain ⟨htoken, hnil⟩ := List.cons.inj heq
    exact ⟨raw, hrest.mp hnil ▸ h, hfree, unescape_eq_self_iff.mp htoken⟩

theorem apply_pointer_eq {cs : List Char} (h : d.toList = '/' :: cs) :
    apply_pointer L j (.str d) = (tokens d).foldlM (follow L) j := by
  have hne : d ≠ "" := by
    rintro rfl
    cases h
  rw [apply_pointer, if_neg hne, if_neg (by rw [h]; exact fun hc => hc rfl)]

theorem source_of_run (h : kvs.foldlM (map_field L env) body = .ok body') :
    ∀ kv ∈ kvs, ∃ v, source_value L env kv.2 = .ok v := by
  induction kvs generalizing body with
  | nil           => exact List.forall_mem_nil _
  | cons kv kvs ih =>
    rw [List.foldlM_cons] at h
    obtain ⟨body₁, h₁, h⟩ := bind_eq_ok_iff.mp h
    obtain ⟨-, v, hv, -⟩ := map_field_eq_ok h₁
    exact List.forall_mem_cons.mpr ⟨⟨v, hv⟩, ih h⟩

theorem head_of_run (h : kvs.foldlM (map_field L env) body = .ok body') :
    ∀ kv ∈ kvs, ∃ cs, kv.1.toList = '/' :: cs := by
  induction kvs generalizing body with
  | nil           => exact List.forall_mem_nil _
  | cons kv kvs ih =>
    rw [List.foldlM_cons] at h
    obtain ⟨body₁, h₁, h⟩ := bind_eq_ok_iff.mp h
    exact List.forall_mem_cons.mpr ⟨List.head?_eq_some_iff.mp (map_field_eq_ok h₁).left, ih h⟩

-- The entries of a mapping that was applied, none of whose destinations starts another one.
structure Applied (L : Libraries) (env : Json) (kvs body : Fields) : Prop where
  run       : kvs.foldlM (map_field L env) [] = .ok body
  keys      : (kvs.map (·.1)).Nodup
  prefixes  : ∀ kv ∈ kvs, ∀ kv' ∈ kvs, tokens kv.1 <+: tokens kv'.1 → kv.1 = kv'.1

theorem Applied.eq_of_key {kv' : String × Json} (h : Applied L env kvs body) (hkv : kv ∈ kvs)
    (hkv' : kv' ∈ kvs) (he : kv.1 = kv'.1) : kv = kv' :=
  List.inj_on_of_nodup_map h.keys hkv hkv' he

-- The value at a destination is that of the entry whose field the first token names.
theorem Applied.source_of_found (h : Applied L env kvs body) (hkv : kv ∈ kvs)
    (hv : apply_pointer L (.obj body) (.str kv.1) = .ok v) :
    ∃ kv' ∈ kvs, ∃ w rest, tokens kv.1 = destination_token kv'.1 :: rest ∧
      body.lookup (destination_token kv'.1) = some w ∧ source_value L env kv'.2 = .ok w ∧
      rest.foldlM (follow L) w = .ok v := by
  obtain ⟨cs, hcs⟩ := head_of_run h.run kv hkv
  obtain ⟨raw, rest, -, -, htokens, -⟩ := tokens_spec hcs
  rw [apply_pointer_eq hcs, htokens, List.foldlM_cons] at hv
  obtain ⟨w, hw, hv⟩ := bind_eq_ok_iff.mp hv
  rcases follow_eq_ok hw with ⟨fields, hfields, hlookup⟩ | ⟨xs, hxs, -⟩
  case inr => cases hxs
  cases hfields
  rcases lookup_run h.run hlookup with ⟨kv', hkv', ht, hsource⟩ | hnil
  · exact ⟨kv', hkv', w, rest, by rw [htokens, ht], ht ▸ hlookup, hsource, hv⟩
  · cases hnil

theorem Applied.flat (h : Applied L env kvs body)
    (hplaces : ∀ kv ∈ kvs, apply_pointer L (.obj body) (.str kv.1) = source_value L env kv.2) :
    ∀ kv ∈ kvs, Flat kv.1 := by
  suffices hsuff : ∀ n, ∀ kv ∈ kvs, (destination_token kv.1).toList.length = n → Flat kv.1 from
    fun kv hkv => hsuff _ kv hkv rfl
  intro n
  induction n using Nat.strong_induction_on with
  | _ n ih =>
    intro kv hkv hn
    obtain ⟨v, hv⟩ := source_of_run h.run kv hkv
    obtain ⟨cs, hcs⟩ := head_of_run h.run kv hkv
    obtain ⟨raw, rest, hraw, -, htokens, -⟩ := tokens_spec hcs
    obtain ⟨kv', hkv', w, rest', htokens', hlookup, hsource, -⟩ :=
      h.source_of_found hkv ((hplaces kv hkv).trans hv)
    have hfirst : unescape raw = destination_token kv'.1 :=
      (List.cons.inj (htokens.symm.trans htokens')).left
    obtain ⟨cs', hcs'⟩ := head_of_run h.run kv' hkv'
    obtain ⟨raw', rest'', hraw', -, htokens'', -⟩ := tokens_spec hcs'
    -- The entry whose value is found first goes to a field of its own.
    have hself : tokens kv'.1 = [destination_token kv'.1] := by
      by_cases hesc : unescape raw = String.ofList raw
      case neg =>
        have hlt := length_unescape_lt hesc
        rw [hraw, String.toList_ofList] at hn
        rw [hfirst] at hlt
        exact (flat_iff hcs').mp <| ih _ (hn ▸ hlt) kv' hkv' rfl
      case pos =>
        have hraws : raw' = raw := by
          rw [hfirst, hraw'] at hesc
          exact String.ofList_injective hesc
        subst hraws
        have hfound := (hplaces kv' hkv').trans hsource
        obtain ⟨kv'', -, w', rest''', htokens''', hlookup', -, hrun⟩ := h.source_of_found hkv' hfound
        rw [htokens''] at htokens'''
        obtain ⟨hfirst', rfl⟩ := List.cons.inj htokens'''
        rw [← hfirst', hfirst, hlookup] at hlookup'
        cases hlookup'
        rw [htokens'', run_self hrun, hfirst]
    have hprefix : tokens kv'.1 <+: tokens kv.1 := by
      rw [hself, htokens']
      exact List.prefix_append _ _
    have hsame := h.prefixes kv' hkv' kv hkv hprefix
    rw [flat_iff hcs, ← hsame]
    exact hself

theorem Applied.places (h : Applied L env kvs body) (hflat : ∀ kv ∈ kvs, Flat kv.1) :
    ∀ kv ∈ kvs, apply_pointer L (.obj body) (.str kv.1) = source_value L env kv.2 := by
  intro kv hkv
  have htokens : ∀ kv ∈ kvs, tokens kv.1 = [destination_token kv.1] := by
    intro kv hkv
    obtain ⟨cs, hcs⟩ := head_of_run h.run kv hkv
    exact (flat_iff hcs).mp (hflat kv hkv)
  have hunique : ∀ kv' ∈ kvs, destination_token kv'.1 = destination_token kv.1 → kv' = kv := by
    intro kv' hkv' ht
    have hsame : tokens kv'.1 = tokens kv.1 := by rw [htokens kv' hkv', htokens kv hkv, ht]
    exact h.eq_of_key hkv' hkv <| h.prefixes kv' hkv' kv hkv <| hsame ▸ List.prefix_refl _
  obtain ⟨v, hv, hlookup⟩ := lookup_run_of_unique h.run hkv hunique
  obtain ⟨cs, hcs⟩ := head_of_run h.run kv hkv
  rw [apply_pointer_eq hcs, htokens kv hkv, hv, List.foldlM_cons, follow, hlookup]
  rfl

end

-- A destination is where the value is put if it is one token without escapes, and only then.
theorem mapped_iff_flat (L : Libraries) (case_input body : Json) (kvs : Fields)
    (hkeys : (kvs.map (·.1)).Nodup)
    (hprefixes : ∀ kv ∈ kvs, ∀ kv' ∈ kvs, kv.1 ≠ kv'.1 → ¬ tokens kv.1 <+: tokens kv'.1)
    (hok : apply_request_mapping L case_input (.obj kvs) = .ok body) :
    (∀ kv ∈ kvs, apply_pointer L body (.str kv.1) = source_value L (envelope case_input) kv.2) ↔
      ∀ kv ∈ kvs, Flat kv.1 := by
  unfold apply_request_mapping at hok
  split at hok
  case isTrue         =>
    obtain ⟨_, ⟨⟩, hok⟩ := bind_eq_ok_iff.mp hok
    obtain ⟨fields, hrun, ⟨⟩⟩ := bind_eq_ok_iff.mp hok
    have h : Applied L (envelope case_input) kvs fields := ⟨hrun, hkeys, fun kv hkv kv' hkv' hp =>
      Classical.not_not.mp fun hne => hprefixes kv hkv kv' hkv' hne hp⟩
    exact ⟨h.flat, h.places⟩
  case isFalse hempty =>
    have hnil : kvs = [] := by simpa [Json.truthy] using hempty
    subst hnil
    exact iff_of_true (List.forall_mem_nil _) (List.forall_mem_nil _)

def question : Json :=
  .obj [("q", .str "why?")]

theorem question_mapped : apply_request_mapping Answering.libraries question
    (.obj [("/question", .str "/input/q")]) = .ok (.obj [("question", .str "why?")]) := by
  decide

theorem mapped_iff_flat_question :
    apply_pointer Answering.libraries (.obj [("question", .str "why?")]) (.str "/question") =
      source_value Answering.libraries (envelope question) (.str "/input/q") := by
  have hflat : ∀ kv ∈ [("/question", Json.str "/input/q")], Flat kv.1 := by
    intro kv hkv
    rw [List.mem_singleton.mp hkv]
    exact ⟨"question".toList, by decide, by decide +kernel, by decide +kernel, by decide +kernel⟩
  have hprefixes : ∀ kv ∈ [("/question", Json.str "/input/q")],
      ∀ kv' ∈ [("/question", Json.str "/input/q")], kv.1 ≠ kv'.1 →
        ¬ tokens kv.1 <+: tokens kv'.1 := by
    intro kv hkv kv' hkv' hne
    rw [List.mem_singleton.mp hkv, List.mem_singleton.mp hkv'] at hne
    exact absurd rfl hne
  exact (mapped_iff_flat Answering.libraries question _ _ (by simp) hprefixes question_mapped).mpr hflat
    ("/question", .str "/input/q") (.head _)

-- All of a nested destination but its first token is dropped.
theorem nested_destination_dropped :
    apply_request_mapping Answering.libraries question (.obj [("/message/content", .str "/input/q")]) =
      .ok (.obj [("message", .str "why?")]) ∧
    (apply_pointer Answering.libraries (.obj [("message", .str "why?")])
      (.str "/message/content")).toOption = none ∧
    source_value Answering.libraries (envelope question) (.str "/input/q") = .ok (.str "why?") :=
  ⟨by decide +kernel, by decide +kernel, by decide +kernel⟩

end Targets
