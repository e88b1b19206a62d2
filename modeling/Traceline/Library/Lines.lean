import Mathlib.Data.List.DropRight
import Mathlib.Data.List.Basic

-- Lines of text, and the texts that are left of them without the space around them.
namespace Lines

-- The lines of a text, without their ends. A line feed belongs to the carriage return before it.
def lines (brk : Char → Bool) : List Char → List Char → List (List Char)
  | [],   []                   => []
  | line, []                   => [line]
  | line, '\r' :: '\n' :: rest => line :: lines brk [] rest
  | line, c :: rest            =>
    if brk c then line :: lines brk [] rest else lines brk (line ++ [c]) rest

def strip (space : Char → Bool) (line : List Char) : List Char :=
  (line.dropWhile space).rdropWhile space

def nonblank (space : Char → Bool) (line : List Char) : Bool :=
  !(strip space line).isEmpty

variable {brk brk' space : Char → Bool} {cs line s p q x y : List Char}

theorem strip_eq_nil_iff : strip space line = [] ↔ ∀ c ∈ line, space c := by
  rw [strip, List.rdropWhile_eq_nil_iff]
  constructor
  case mp =>
    intro h c hc
    rw [← List.takeWhile_append_dropWhile (p := space) (l := line)] at hc
    rcases List.mem_append.mp hc with hc | hc
    · exact List.mem_takeWhile_imp hc
    · exact h c hc
  case mpr => exact fun h c hc => h c <| List.dropWhile_sublist _ |>.subset hc

theorem nonblank_eq_false_iff : nonblank space line = false ↔ ∀ c ∈ line, space c := by
  rw [nonblank, Bool.not_eq_false', List.isEmpty_iff, strip_eq_nil_iff]

theorem nonblank_of_mem {c : Char} (hc : c ∈ line) (hs : ¬space c) : nonblank space line := by
  by_contra h
  exact hs <| nonblank_eq_false_iff.mp (eq_false_of_ne_true h) c hc

-- Text that begins and ends with something else than space.
structure Trimmed (space : Char → Bool) (s : List Char) : Prop where
  head : ∀ c ∈ s.head?, ¬space c
  last : ∀ c ∈ s.getLast?, ¬space c

theorem exists_strip : ∃ p q, line = p ++ strip space line ++ q ∧ (∀ c ∈ p, space c) ∧
    (∀ c ∈ q, space c) := by
  refine ⟨line.takeWhile space, (line.dropWhile space).rtakeWhile space, ?_, ?_, ?_⟩
  · rw [strip, List.append_assoc, List.rdropWhile_append_rtakeWhile, List.takeWhile_append_dropWhile]
  · exact fun _ => List.mem_takeWhile_imp
  · exact fun _ => List.mem_rtakeWhile_imp

theorem dropWhile_append (hp : ∀ c ∈ p, space c) (hs : ∀ c ∈ s.head?, ¬space c) :
    (p ++ s).dropWhile space = s := by
  rw [List.dropWhile_append_of_pos hp]
  cases s with
  | nil      => rfl
  | cons c s => exact List.dropWhile_cons_of_neg <| hs c rfl

theorem takeWhile_append (hp : ∀ c ∈ p, space c) (hs : ∀ c ∈ s.head?, ¬space c) :
    (p ++ s).takeWhile space = p := by
  rw [List.takeWhile_append_of_pos hp]
  cases s with
  | nil      => exact List.append_nil p
  | cons c s => rw [List.takeWhile_cons_of_neg <| hs c rfl, List.append_nil]

theorem strip_append (hp : ∀ c ∈ p, space c) (hs : Trimmed space s) (hq : ∀ c ∈ q, space c)
    (hne : s ≠ []) : strip space (p ++ s ++ q) = s := by
  have hhead : ∀ c ∈ (s ++ q).head?, ¬space c := by
    rw [List.head?_append_of_ne_nil _ hne]
    exact hs.head
  have hlast : ∀ c ∈ s.reverse.head?, ¬space c := by
    rw [List.head?_reverse]
    exact hs.last
  rw [strip, List.append_assoc, dropWhile_append hp hhead, List.rdropWhile, List.reverse_append,
    dropWhile_append (by simpa using hq) hlast, List.reverse_reverse]

theorem trimmed_strip : Trimmed space (strip space line) := by
  constructor
  case last =>
    intro c hc
    have hne : strip space line ≠ [] := List.ne_nil_of_mem <| List.mem_of_mem_getLast? hc
    rw [List.getLast?_eq_some_getLast hne, Option.mem_some_iff] at hc
    exact hc ▸ List.rdropWhile_last_not _ _ hne
  case head =>
    intro c hc
    have hpre : strip space line <+: line.dropWhile space := List.rdropWhile_prefix _ _
    have hne : strip space line ≠ [] := List.ne_nil_of_mem (List.mem_of_mem_head? hc)
    obtain ⟨t, ht⟩ := hpre
    have hd : (line.dropWhile space).head? = some c := by
      rw [← ht, List.head?_append_of_ne_nil _ hne]
      exact hc
    have := List.head?_dropWhile_not space line
    rw [hd] at this
    simpa using this

-- Space around a text does not show once it is stripped.
theorem strip_pad (hp : ∀ c ∈ p, space c) (hq : ∀ c ∈ q, space c) :
    strip space (p ++ line ++ q) = strip space line := by
  obtain ⟨p', q', hline, hp', hq'⟩ := @exists_strip space line
  have hpp : ∀ c ∈ p ++ p', space c := fun c hc => (List.mem_append.mp hc).elim (hp c) (hp' c)
  have hqq : ∀ c ∈ q' ++ q, space c := fun c hc => (List.mem_append.mp hc).elim (hq' c) (hq c)
  have hpad : p ++ line ++ q = p ++ p' ++ strip space line ++ (q' ++ q) := by
    conv_lhs => rw [hline]
    simp only [List.append_assoc]
  by_cases hne : strip space line = []
  case pos =>
    rw [hpad, hne, List.append_nil, strip_eq_nil_iff]
    exact fun c hc => (List.mem_append.mp hc).elim (hpp c) (hqq c)
  case neg => rw [hpad, strip_append hpp trimmed_strip hqq hne]

-- Where a text is split at more characters, each of its pieces is split again.
theorem splitOnP_flatMap (h : ∀ c, brk c → brk' c) :
    cs.splitOnP brk' = (cs.splitOnP brk).flatMap (List.splitOnP brk') := by
  induction cs with
  | nil         => rfl
  | cons c cs ih =>
    rw [List.splitOnP_cons_eq_if_modifyHead, List.splitOnP_cons_eq_if_modifyHead]
    by_cases hc : brk c
    · rw [if_pos hc, if_pos (h c hc), List.flatMap_cons, ← ih]
      rfl
    · rw [if_neg hc, ih]
      obtain ⟨x, xs, hx⟩ := List.exists_cons_of_ne_nil <| List.splitOnP_ne_nil brk cs
      rw [hx, List.modifyHead_cons, List.flatMap_cons, List.flatMap_cons,
        List.splitOnP_cons_eq_if_modifyHead]
      split
      · rfl
      · obtain ⟨y, ys, hy⟩ := List.exists_cons_of_ne_nil <| List.splitOnP_ne_nil brk' x
        rw [hy]
        rfl

-- The empty line between a carriage return and a line feed does not count where blank lines do not.
theorem filter_lines (hr : brk '\r') (hn : brk '\n') :
    (lines brk line cs).filter (nonblank space) =
      (List.splitOnPPrepend brk cs line.reverse).filter (nonblank space) := by
  have hnil : nonblank space [] = false := nonblank_eq_false_iff.mpr fun _ h => by cases h
  fun_induction lines brk line cs with
  | case1                   => rfl
  | case2 line hne          => rw [List.splitOnPPrepend_nil, List.reverse_reverse]
  | case3 line rest ih      =>
    rw [List.splitOnPPrepend_cons_pos hr, List.splitOnP_cons_eq_if_modifyHead, if_pos hn,
      List.reverse_reverse, List.filter_cons, List.filter_cons, ih,
      List.filter_cons_of_neg (by simp [hnil])]
    rfl
  | case4 line c rest _ hc ih =>
    rw [List.splitOnPPrepend_cons_pos hc, List.reverse_reverse, List.filter_cons, List.filter_cons,
      ih]
    rfl
  | case5 line c rest _ hc ih =>
    rw [List.splitOnPPrepend_cons_neg (eq_false_of_ne_true hc), ih, List.reverse_append]
    rfl

theorem mem_of_mem_splitOnP (hx : x ∈ cs.splitOnP brk) {c : Char} (hc : c ∈ x) :
    c ∈ cs ∧ ¬brk c := by
  induction cs generalizing x with
  | nil          => simp_all
  | cons d cs ih =>
    rw [List.splitOnP_cons_eq_if_modifyHead] at hx
    split at hx
    case isTrue =>
      rcases List.mem_cons.mp hx with rfl | hx
      · cases hc
      · exact (ih hx hc).imp_left <| List.mem_cons_of_mem d
    case isFalse hd =>
      obtain ⟨y, ys, hy⟩ := List.exists_cons_of_ne_nil <| List.splitOnP_ne_nil brk cs
      rw [hy, List.modifyHead_cons] at hx
      rw [hy] at ih
      rcases List.mem_cons.mp hx with rfl | hx
      · rcases List.mem_cons.mp hc with rfl | hc
        · exact ⟨.head _, hd⟩
        · exact (ih (.head _) hc).imp_left <| List.mem_cons_of_mem d
      · exact (ih (.tail _ hx) hc).imp_left <| List.mem_cons_of_mem d

-- What is before the last line break of `p` is split on its own.
theorem splitOnP_left : ∃ xs p', p' <:+ p ∧ (∀ c ∈ p', ¬brk c) ∧ (∀ x ∈ xs, ∀ c ∈ x, c ∈ p) ∧
    (p ++ y).splitOnP brk = xs ++ (p' ++ y).splitOnP brk := by
  induction p using List.reverseRecOn generalizing y with
  | nil              => exact ⟨[], [], List.suffix_refl _, fun _ h => (by cases h), fun _ h => (by cases h), rfl⟩
  | append_singleton p c ih =>
    by_cases hc : brk c
    case pos =>
      refine ⟨p.splitOnP brk, [], List.nil_suffix, fun _ h => (by cases h), fun x hx d hd => ?_, ?_⟩
      · exact List.mem_append_left _ (mem_of_mem_splitOnP hx hd).left
      · rw [List.append_assoc]
        exact List.splitOnP_append_cons p y hc
    case neg =>
      obtain ⟨xs, p', ⟨t, ht⟩, hp', hxs, h⟩ := ih (y := c :: y)
      refine ⟨xs, p' ++ [c], ⟨t, ?_⟩, fun d hd => ?_, fun x hx d hd => ?_, ?_⟩
      · rw [← List.append_assoc, ht]
      · rcases List.mem_append.mp hd with hd | hd
        · exact hp' d hd
        · rwa [List.mem_singleton.mp hd]
      · exact List.mem_append_left _ <| hxs x hx d hd
      · rw [List.append_assoc, List.append_assoc]
        exact h

-- What is after the first line break of `y` is split on its own.
theorem splitOnP_right (hx : ∀ c ∈ x, ¬brk c) : ∃ ys, (∀ z ∈ ys, ∀ c ∈ z, c ∈ y) ∧
    (x ++ y).splitOnP brk = (x ++ y.takeWhile (!brk ·)) :: ys := by
  induction y generalizing x with
  | nil         =>
    refine ⟨[], fun _ h => (by cases h), ?_⟩
    rw [List.splitOnP_eq_singleton (by simpa using hx)]
    rfl
  | cons c y ih =>
    by_cases hc : brk c
    case pos =>
      refine ⟨y.splitOnP brk, fun z hz d hd => ?_, ?_⟩
      · exact List.mem_cons_of_mem c (mem_of_mem_splitOnP hz hd).left
      · rw [List.splitOnP_append_cons_of_forall_mem (by simpa using hx) c hc,
          List.takeWhile_cons_of_neg (by simp [hc]), List.append_nil]
    case neg =>
      have hxc : ∀ d ∈ x ++ [c], ¬brk d := by
        intro d hd
        rcases List.mem_append.mp hd with hd | hd
        · exact hx d hd
        · rwa [List.mem_singleton.mp hd]
      obtain ⟨ys, hys, h⟩ := ih hxc
      refine ⟨ys, fun z hz d hd => List.mem_cons_of_mem c (hys z hz d hd), ?_⟩
      rw [List.takeWhile_cons_of_pos (by simp [hc])]
      simpa using h

theorem lines_append (hr : brk '\r') (hp : ∀ c ∈ p, ¬brk c) :
    lines brk line (p ++ y) = lines brk (line ++ p) y := by
  induction p generalizing line with
  | nil          => rw [List.nil_append, List.append_nil]
  | cons c p ih =>
    have hc := hp c (.head _)
    have hne : c ≠ '\r' := fun h => hc (h ▸ hr)
    rw [List.cons_append, lines.eq_4 _ _ _ _ (fun _ h _ => hne h), if_neg hc,
      ih fun d hd => hp d (.tail _ hd), List.append_assoc]
    rfl

theorem lines_break {c : Char} (hc : brk c) (hne : c ≠ '\r') :
    lines brk line (c :: y) = line :: lines brk [] y := by
  rw [lines.eq_4 _ _ _ _ (fun _ h _ => hne h), if_pos hc]

-- A text is its first line where nothing in it breaks.
theorem lines_eq_singleton (hr : brk '\r') (hp : ∀ c ∈ p, ¬brk c) (hne : p ≠ []) :
    lines brk [] p = [p] := by
  have h := @lines_append brk [] p [] hr hp
  rw [List.append_nil, List.nil_append] at h
  rw [h]
  cases p with
  | nil      => contradiction
  | cons c p => rfl

-- Where a text breaks first.
theorem exists_break (h : ∃ c ∈ y, brk c) :
    ∃ p c q, y = p ++ c :: q ∧ (∀ d ∈ p, ¬brk d) ∧ brk c := by
  induction y with
  | nil         => obtain ⟨c, hm, -⟩ := h; cases hm
  | cons d y ih =>
    by_cases hd : brk d
    case pos => exact ⟨[], d, y, rfl, List.forall_mem_nil _, hd⟩
    case neg =>
      obtain ⟨c, hm, hc⟩ := h
      have hy : c ∈ y := (List.mem_cons.mp hm).resolve_left fun he => hd (he ▸ hc)
      obtain ⟨p, e, q, rfl, hp, he⟩ := ih ⟨c, hy, hc⟩
      exact ⟨d :: p, e, q, rfl, List.forall_mem_cons.mpr ⟨hd, hp⟩, he⟩

end Lines
