import Mathlib.Data.List.Nodup

-- Records written one after another, each as its key, a separator and its body.
namespace Framing

variable {α : Type*} {sep : α} {records records' : List (List α × List α)}

def stream (sep : α) (records : List (List α × List α)) : List α :=
  records.flatMap fun r => r.1 ++ sep :: r.2

theorem stream_cons {r : List α × List α} :
    stream sep (r :: records) = r.1 ++ sep :: (r.2 ++ stream sep records) := by
  rw [stream, List.flatMap_cons, List.append_assoc, List.cons_append, stream]

-- The first separator ends the first key.
theorem cut_key {key key' rest rest' : List α} (h : sep ∉ key) (h' : sep ∉ key')
    (heq : key ++ sep :: rest = key' ++ sep :: rest') : key = key' ∧ rest = rest' := by
  induction key generalizing key' with
  | nil =>
    cases key' with
    | nil        => exact ⟨rfl, List.tail_eq_of_cons_eq heq⟩
    | cons a key' =>
      have ha : sep = a := List.head_eq_of_cons_eq heq
      exact absurd (ha ▸ List.mem_cons_self) h'
  | cons a key ih =>
    cases key' with
    | nil =>
      have ha : a = sep := List.head_eq_of_cons_eq heq
      exact absurd (ha ▸ List.mem_cons_self) h
    | cons a' key' =>
      have ha : a = a' := List.head_eq_of_cons_eq heq
      obtain ⟨hkey, hrest⟩ := ih (fun hk => h <| .tail _ hk) (fun hk => h' <| .tail _ hk)
        (List.tail_eq_of_cons_eq heq)
      exact ⟨by rw [ha, hkey], hrest⟩

-- Told how long each body is, a reader finds the records again.
theorem eq_of_lengths (h : ∀ r ∈ records, sep ∉ r.1) (h' : ∀ r ∈ records', sep ∉ r.1)
    (hlengths : records.map (·.2.length) = records'.map (·.2.length))
    (hstream : stream sep records = stream sep records') : records = records' := by
  induction records generalizing records' with
  | nil =>
    exact (List.map_eq_nil_iff.mp hlengths.symm).symm
  | cons r records ih =>
    cases records' with
    | nil             => exact absurd hlengths <| List.cons_ne_nil _ _
    | cons r' records' =>
      rw [stream_cons, stream_cons] at hstream
      obtain ⟨hkey, hrest⟩ := cut_key (h r <| .head _) (h' r' <| .head _) hstream
      obtain ⟨hbody, hrest⟩ := List.append_inj hrest <| List.head_eq_of_cons_eq hlengths
      rw [Prod.ext hkey hbody, ih (fun r hr => h r <| .tail _ hr) (fun r hr => h' r <| .tail _ hr)
        (List.tail_eq_of_cons_eq hlengths) hrest]

-- Two streams of the same records have them in the same order.
theorem eq_of_mem_iff (h : ∀ r ∈ records, sep ∉ r.1) (h' : ∀ r ∈ records', sep ∉ r.1)
    (hkeys : (records.map Prod.fst).Nodup) (hkeys' : (records'.map Prod.fst).Nodup)
    (hmem : ∀ r, r ∈ records ↔ r ∈ records')
    (hstream : stream sep records = stream sep records') : records = records' := by
  induction records generalizing records' with
  | nil =>
    exact (List.eq_nil_iff_forall_not_mem.mpr fun r hr => List.not_mem_nil <| (hmem r).mpr hr).symm
  | cons r records ih =>
    cases records' with
    | nil              => exact absurd ((hmem r).mp <| .head _) List.not_mem_nil
    | cons r' records' =>
      rw [stream_cons, stream_cons] at hstream
      obtain ⟨hkey, hrest⟩ := cut_key (h r <| .head _) (h' r' <| .head _) hstream
      rw [List.map_cons, List.nodup_cons] at hkeys hkeys'
      have hr : r = r' := by
        rcases List.mem_cons.mp <| (hmem r).mp <| .head _ with hr | hr
        · exact hr
        · exact absurd (hkey ▸ List.mem_map_of_mem hr) hkeys'.left
      subst hr
      have hnot : ∀ {l : List (List α × List α)} {q}, r.1 ∉ l.map Prod.fst → q ∈ l → q ≠ r :=
        fun hl hq heq => hl <| heq ▸ List.mem_map_of_mem hq
      have htail : ∀ q, q ∈ records ↔ q ∈ records' := by
        intro q
        constructor
        · intro hq
          exact List.mem_of_ne_of_mem (hnot hkeys.left hq) <| (hmem q).mp <| .tail _ hq
        · intro hq
          exact List.mem_of_ne_of_mem (hnot hkeys'.left hq) <| (hmem q).mpr <| .tail _ hq
      rw [ih (fun r hr => h r <| .tail _ hr) (fun r hr => h' r <| .tail _ hr) hkeys.right
        hkeys'.right htail <| List.append_cancel_left hrest]

end Framing
