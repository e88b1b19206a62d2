import Mathlib.Data.List.TakeWhile
import Traceline.Targets.HttpJson

-- The tokens that a pointer is made of.
namespace Targets

section

variable {first second new c : Char} {cs raw : List Char}

theorem replace_pair_cons (h : c ≠ first) :
    replace_pair first second new (c :: cs) = c :: replace_pair first second new cs := by
  cases cs with
  | nil      => rfl
  | cons d cs => rw [replace_pair, if_neg fun hc => h hc.left]

theorem length_replace_pair_le :
    (replace_pair first second new cs).length ≤ cs.length := by
  fun_induction replace_pair first second new cs with
  | case1                => exact le_rfl
  | case2                => exact le_rfl
  | case3 c d text _ ih  => simp only [List.length_cons]; omega
  | case4 c d text _ ih  => simpa using ih

theorem replace_pair_eq_of_length
    (h : (replace_pair first second new cs).length = cs.length) :
    replace_pair first second new cs = cs := by
  fun_induction replace_pair first second new cs with
  | case1                => rfl
  | case2                => rfl
  | case3 c d text _ ih  =>
    have hle := @length_replace_pair_le first second new text
    simp only [List.length_cons] at h
    omega
  | case4 c d text _ ih  => rw [ih (by simpa using h)]

-- What has no pair to replace is as it was.
theorem replace_pair_eq_self_iff :
    replace_pair first second new cs = cs ↔ ¬ [first, second] <:+: cs := by
  fun_induction replace_pair first second new cs with
  | case1                => simp
  | case2                => simp [List.infix_cons_iff]
  | case3 c d text hc ih =>
    obtain ⟨rfl, rfl⟩ := hc
    constructor
    · intro heq
      have hlen := congrArg List.length heq
      have hle := @length_replace_pair_le c d new text
      simp only [List.length_cons] at hlen
      omega
    · intro hinfix
      exact absurd ⟨[], text, rfl⟩ hinfix
  | case4 c d text hc ih =>
    have hprefix : ¬ [first, second] <+: c :: d :: text := by
      rintro ⟨t, ht⟩
      obtain ⟨hfirst, hrest⟩ := List.cons.inj ht
      exact hc ⟨hfirst.symm, (List.cons.inj hrest).left.symm⟩
    have hiff : [first, second] <:+: c :: d :: text ↔ [first, second] <:+: d :: text :=
      List.infix_cons_iff.trans (or_iff_right hprefix)
    rw [hiff, ← ih]
    simp

-- Undoing escapes shortens a token that has some.
theorem length_unescape_lt (h : unescape raw ≠ String.ofList raw) :
    (unescape raw).toList.length < raw.length := by
  rw [unescape, String.toList_ofList]
  have hfirst := @length_replace_pair_le '~' '1' '/' raw
  have hsecond := @length_replace_pair_le '~' '0' '~' (replace_pair '~' '1' '/' raw)
  refine Nat.lt_of_le_of_ne (hsecond.trans hfirst) fun heq => h ?_
  have hraw := replace_pair_eq_of_length (le_antisymm hfirst (heq ▸ hsecond))
  rw [hraw] at heq
  rw [unescape, hraw, replace_pair_eq_of_length heq]

theorem unescape_eq_self_iff : unescape raw = String.ofList raw ↔
    ¬ ['~', '0'] <:+: raw ∧ ¬ ['~', '1'] <:+: raw := by
  constructor
  · intro h
    have hfirst := @length_replace_pair_le '~' '1' '/' raw
    have hsecond := @length_replace_pair_le '~' '0' '~' (replace_pair '~' '1' '/' raw)
    have hlen := congrArg (fun s => s.toList.length) h
    rw [unescape] at hlen
    simp only [String.toList_ofList] at hlen
    have hraw := replace_pair_eq_of_length (le_antisymm hfirst (hlen ▸ hsecond))
    rw [hraw] at hlen
    exact ⟨replace_pair_eq_self_iff.mp (replace_pair_eq_of_length hlen),
      replace_pair_eq_self_iff.mp hraw⟩
  · rintro ⟨hzero, hone⟩
    rw [unescape, replace_pair_eq_self_iff.mpr hone, replace_pair_eq_self_iff.mpr hzero]

-- A pointer has a first token, which is the whole of it where there is no other slash.
theorem tokens_spec {pointer : String} (h : pointer.toList = '/' :: cs) :
    ∃ raw rest, destination_token pointer = String.ofList raw ∧ '/' ∉ raw ∧
      tokens pointer = unescape raw :: rest ∧ (rest = [] ↔ raw = cs) := by
  have hraw : destination_token pointer = String.ofList (cs.takeWhile (· ≠ '/')) := by
    rw [destination_token, h, List.drop_one, List.tail_cons]
  have htokens : tokens pointer = (cs.splitOn '/').map unescape := by
    rw [tokens, h, List.drop_one, List.tail_cons]
  have hfree : '/' ∉ cs.takeWhile (· ≠ '/') := fun hmem => by
    simpa using List.mem_takeWhile_imp hmem
  have hsplit := List.takeWhile_append_dropWhile (p := (· ≠ '/')) (l := cs)
  cases hd : cs.dropWhile (· ≠ '/') with
  | nil         =>
    rw [hd, List.append_nil] at hsplit
    rw [hsplit] at hraw hfree
    exact ⟨cs, [], hraw, hfree, by rw [htokens, List.splitOn_eq_singleton hfree]; rfl, by simp⟩
  | cons c rest =>
    have hc : c = '/' := by
      have hhead := List.head?_dropWhile_not (· ≠ '/') cs
      rw [hd] at hhead
      simpa using hhead
    subst hc
    refine ⟨_, (rest.splitOn '/').map unescape, hraw, hfree, ?_, ?_⟩
    · rw [htokens]
      conv_lhs => rw [← hsplit, hd, List.splitOn_append_cons_self_of_not_mem hfree]
      rfl
    · constructor
      · intro hnil
        exact absurd (List.map_eq_nil_iff.mp hnil) (List.splitOn_ne_nil _ _)
      · intro heq
        rw [hd, heq] at hsplit
        simp at hsplit

end

end Targets
