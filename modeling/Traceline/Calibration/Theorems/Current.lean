import Traceline.Calibration.Service
import Traceline.Library.Protocol

namespace Calibration

open Evaluators (ReadinessState gate_safe may_gate)
open Spec (JudgeBinding Metric)
open Versions (Actor)

abbrev Label := JudgeCalibrationLabelRecord
abbrev Row := JudgeCalibrationRecord

def kappa_of (labels : List Label) : Option ℚ :=
  cohen_kappa (labels.map fun row => (row.human_label, row.judge_label))

-- The state that labels give under the thresholds of a row.
def derived_state (labels : List Label) (r : Row) : ReadinessState :=
  (JudgeReadiness._derive { readiness r.binding r with
    label_count := labels.length, kappa := kappa_of labels }).state

structure Derived (labels : List Label) (r : Row) : Prop where
  label_count : r.label_count = labels.length
  kappa       : r.kappa = kappa_of labels
  state       : r.state = derived_state labels r

theorem derived_uncalibrated {k : String} {b : JudgeBinding} {n m : ℕ} {x y : ℚ} :
    Derived [] (record k (uncalibrated b n x y) m) where
  label_count := rfl
  kappa       := rfl
  state       := by simp [derived_state, kappa_of, cohen_kappa, record, uncalibrated,
    JudgeReadiness._derive, JudgeReadiness.sufficient]

theorem Derived.sufficient {labels : List Label} {r : Row} (h : Derived labels r)
    (hs : r.state = .CALIBRATED) :
    r.min_labels ≤ labels.length ∧ ∃ kappa, kappa_of labels = some kappa ∧ r.kappa_ready ≤ kappa := by
  have hd := h.state.symm.trans hs
  simp only [derived_state, JudgeReadiness._derive] at hd
  split at hd
  case isTrue  => split at hd <;> cases hd
  case isFalse =>
    split at hd
    case isTrue hsuff =>
      simp only [JudgeReadiness.sufficient, Bool.and_eq_true, decide_eq_true_eq] at hsuff
      obtain ⟨hmin, hkappa⟩ := hsuff
      obtain ⟨kappa, hk, hle⟩ := Option.any_eq_true _ _ |>.mp hkappa
      exact ⟨hmin, kappa, hk, of_decide_eq_true hle⟩
    case isFalse      => split at hd <;> cases hd

-- What a call has in hand of the binding under a key.
inductive Phase
  | idle
  | missing (key : String)
  | read (key : String) (generation : ℕ)
  | appended (key : String)
  | counting (key : String) (generation : ℕ)
  | listed (key : String) (generation last : ℕ) (labels : List Label)
  -- A row that was there is gone.
  | stuck

namespace Phase

-- A label was added that the row does not count yet.
def Pending (key : String) : Phase → Prop
  | .appended k | .counting k _ | .listed k _ _ _ => k = key
  | _                                             => False

def Settled (x : Phase) : Prop :=
  ∀ key, ¬x.Pending key

def found (key : String) : Phase → Option Row → Phase
  | .appended k, some r                     => .counting k r.generation
  | .counting k _, some r                   => .counting k r.generation
  | .listed k generation _ labels, some r   => .listed k generation r.generation labels
  | .stuck, some _                          => .stuck
  | _, some r                               => .read key r.generation
  | .idle, none | .missing _, none | .read _ _, none => .missing key
  | _, none                                 => .stuck

def allows : Phase → Call → Prop
  | .idle, .get_judge_calibration _ | .missing _, .get_judge_calibration _
  | .read _ _, .get_judge_calibration _ => True
  | .appended k, .get_judge_calibration key | .counting k _, .get_judge_calibration key
  | .listed k _ _ _, .get_judge_calibration key => key = k
  | .missing k, .upsert_judge_calibration r =>
    r.binding_key = k ∧ r.generation = 0 ∧ Derived [] r
  | .read k generation, .upsert_judge_calibration r =>
    r.binding_key = k ∧ r.generation = generation + 1 ∧ Derived [] r
  | .listed k _ last labels, .upsert_judge_calibration r =>
    r.binding_key = k ∧ r.generation = last ∧ Derived labels r
  | .read k generation, .append_judge_calibration_label l =>
    l.binding_key = k ∧ l.generation = generation
  | .counting k generation, .list_judge_calibration_labels key g => key = k ∧ g = generation
  | _, _ => False

def next (x : Phase) : Event sig → Phase
  | ⟨.get_judge_calibration key, .ok r⟩            => x.found key r
  | ⟨.append_judge_calibration_label l, _⟩         => .appended l.binding_key
  | ⟨.list_judge_calibration_labels key generation, .ok labels⟩ =>
    .listed key generation generation labels
  | ⟨.upsert_judge_calibration _, _⟩               => .idle
  | _                                              => x

end Phase

abbrev protocol : Prog.Protocol store Phase where
  allow _ _ := True
  allows    := Phase.allows
  next      := Phase.next

section Orderly

variable {py : Python} {binding_key : JudgeBinding → String} {actor : Actor} {binding : JudgeBinding}
variable {α : Type}

abbrev Follows (p : Prog sig α) (Q : α → Phase → Prop) (x : Phase) : Prop :=
  p.Follows protocol (fun _ => Phase.Settled) Q x

theorem follows_read {key : String} {x : Phase} {Q : Option Row → Phase → Prop}
    (h : x.allows (.get_judge_calibration key)) (hq : ∀ r, Q r (x.found key r)) :
    Follows (call (.get_judge_calibration key)) Q x :=
  .perform h (fun _ r _ => hq r) fun _ _ he => by cases he

theorem follows_upsert {r : Row} {x : Phase} (h : x.allows (.upsert_judge_calibration r)) :
    Follows (call (.upsert_judge_calibration r)) (fun _ => (· = .idle)) x :=
  .perform h (fun _ _ _ => rfl) fun _ _ _ _ => id

theorem follows_get {x : Phase} (hx : x = .idle ∨ ∃ k g, x = .read k g) :
    Follows (get binding_key actor binding) (fun _ x => ∃ g, x = .read (binding_key binding) g)
      x := by
  have hsettled : x.Settled := by
    rcases hx with rfl | ⟨k, g, rfl⟩ <;> exact fun _ => id
  have hallows : x.allows (.get_judge_calibration (binding_key binding)) := by
    rcases hx with rfl | ⟨k, g, rfl⟩ <;> trivial
  refine .seq (R := fun _ y => x = y) (.ofExcept (fun _ _ => rfl) fun _ _ => hsettled) ?_
  rintro _ _ rfl
  refine .seq (R := fun r y => y = x.found (binding_key binding) r)
    (follows_read hallows fun _ => rfl) ?_
  rintro r _ rfl
  cases r with
  | some r =>
    refine ⟨r.generation, ?_⟩
    rcases hx with rfl | ⟨k, g, rfl⟩ <;> rfl
  | none   =>
    have hmissing : x.found (binding_key binding) none = .missing (binding_key binding) := by
      rcases hx with rfl | ⟨k, g, rfl⟩ <;> rfl
    rw [hmissing]
    refine .seq (follows_upsert ⟨rfl, rfl, derived_uncalibrated⟩) ?_
    rintro _ _ rfl
    refine .seq (R := fun r y => y = Phase.idle.found (binding_key binding) r)
      (follows_read trivial fun _ => rfl) ?_
    rintro r _ rfl
    cases r with
    | some r => exact ⟨r.generation, rfl⟩
    | none   => exact fun _ => id

theorem follows_generation {key : String} {x : Phase} {Q : ℕ → Phase → Prop}
    (h : x.allows (.get_judge_calibration key))
    (hsome : ∀ r : Row, Q r.generation (x.found key (some r)))
    (hnone : (x.found key none).Settled) : Follows (_generation key) Q x := by
  unfold _generation
  refine .seq (R := fun r y => y = x.found key r) (follows_read h fun _ => rfl) ?_
  rintro r _ rfl
  cases r with
  | some r => exact hsome r
  | none   => exact hnone

theorem follows_recompute {current : JudgeReadiness} :
    Follows (_recompute binding_key binding current) (fun _ => (· = .idle))
      (.appended (binding_key binding)) := by
  let k := binding_key binding
  refine .seq (R := fun g x => x = .counting k g)
    (follows_generation rfl (fun _ => rfl) fun _ => id) ?_
  rintro listed _ rfl
  refine .seq (R := fun labels x => x = .listed k listed listed labels) ?_ ?_
  · exact .perform ⟨rfl, rfl⟩ (fun _ _ _ => rfl) fun _ _ he => by cases he
  rintro labels _ rfl
  refine .seq (R := fun g x => x = .listed k listed g labels)
    (follows_generation rfl (fun _ => rfl) fun _ => id) ?_
  rintro generation _ rfl
  refine .seq (R := fun g x => x = .listed k listed g labels)
    (follows_generation rfl (fun _ => rfl) fun _ => id) ?_
  rintro written _ rfl
  refine .seq (follows_upsert ⟨rfl, rfl, ⟨rfl, rfl, rfl⟩⟩) ?_
  rintro _ _ rfl
  rfl

theorem follows_record_label {case_id : String} {human_label judge_label : Json}
    {label_id : Option String} :
    Follows (record_label py binding_key actor binding case_id human_label judge_label label_id)
      (fun _ => Phase.Settled) .idle := by
  have hidle : Phase.idle.Settled := fun _ => id
  refine .seq (R := fun _ => (· = .idle)) (.ofExcept (fun _ _ => rfl) fun _ _ => hidle) ?_
  rintro _ _ rfl
  refine .seq (R := fun _ => (· = .idle)) (.ofExcept (fun _ _ => rfl) fun _ _ => hidle) ?_
  rintro _ _ rfl
  refine .seq (R := fun _ => (· = .idle)) (.ofExcept (fun _ _ => rfl) fun _ _ => hidle) ?_
  rintro human_label _ rfl
  refine .seq (R := fun _ => (· = .idle)) (.ofExcept (fun _ _ => rfl) fun _ _ => hidle) ?_
  rintro judge_label _ rfl
  refine .seq (follows_get <| .inl rfl) ?_
  rintro current _ ⟨g, rfl⟩
  let k := binding_key binding
  refine .seq (R := fun g x => x = .read k g)
    (follows_generation trivial (fun _ => rfl) fun _ => id) ?_
  rintro generation _ rfl
  refine .seq (R := fun _ => (· = .read k generation)) ?_ ?_
  · unfold label_id_of
    split
    case h_1 => rfl
    case h_2 => exact .query fun _ _ => rfl
  rintro label_id _ rfl
  refine .seq (R := fun _ => (· = .read k generation)) (.query fun _ _ => rfl) ?_
  rintro created_at _ rfl
  refine .seq (R := fun _ => (· = .appended k)) ?_ ?_
  · exact .perform ⟨rfl, rfl⟩ (fun _ _ _ => rfl) fun _ _ he => by cases he
  rintro _ _ rfl
  exact follows_recompute.mono (fun _ _ hx => hx ▸ hidle) fun _ _ => id

theorem follows_reset :
    Follows (reset binding_key actor binding) (fun _ => Phase.Settled) .idle := by
  have hidle : Phase.idle.Settled := fun _ => id
  have hread : ∀ k g, (Phase.read k g).Settled := fun _ _ _ => id
  refine .seq (R := fun _ => (· = .idle)) (.ofExcept (fun _ _ => rfl) fun _ _ => hidle) ?_
  rintro _ _ rfl
  refine .seq (follows_get <| .inl rfl) ?_
  rintro current _ ⟨g, rfl⟩
  let k := binding_key binding
  refine .seq (R := fun r x => x = (Phase.read k g).found k r)
    (follows_read trivial fun _ => rfl) ?_
  rintro r _ rfl
  refine .seq (R := fun row x => x = .read k row.generation) ?_ ?_
  · cases r with
    | some r => rfl
    | none   => exact fun _ => id
  rintro row _ rfl
  refine .seq (follows_upsert ⟨rfl, rfl, derived_uncalibrated⟩) ?_
  rintro _ _ rfl
  exact (follows_get <| .inl rfl).mono (fun _ _ hx => by obtain ⟨g, rfl⟩ := hx; exact hread _ _)
    fun _ _ => id

end Orderly

namespace State

variable {s : State} {l : Label} {k : String} {g : ℕ}

abbrev row (s : State) (key : String) : Option Row :=
  s.calibrations.find key

abbrev list (s : State) (key : String) (generation : ℕ) : List Label :=
  s.list_judge_calibration_labels key generation

theorem mem_list : l ∈ s.list k g ↔ l ∈ s.labels ∧ l.binding_key = k ∧ l.generation = g := by
  simp [list_judge_calibration_labels, List.mem_insertionSort, Table.mem_rows]

theorem list_eq_nil (h : ∀ l ∈ s.labels, l.binding_key = k → l.generation ≠ g) : s.list k g = [] :=
  List.eq_nil_iff_forall_not_mem.mpr fun l hl =>
    have ⟨hl, hk, hg⟩ := mem_list.mp hl
    h l hl hk hg

-- No label counts twice.
theorem nodup_list : ((s.list k g).map (·.label_id)).Nodup := by
  have hperm : (s.list k g).Perm (s.labels.rows.filter fun l =>
      l.binding_key = k && l.generation = g) := List.perm_insertionSort _ _
  refine (hperm.map _).nodup_iff.mpr ?_
  refine List.Nodup.of_map (fun id => (k, g, id)) ?_
  have hkey : (s.labels.rows.filter fun l => l.binding_key = k && l.generation = g).map
      ((fun id => (k, g, id)) ∘ (·.label_id)) =
      (s.labels.rows.filter fun l => l.binding_key = k && l.generation = g).map
        JudgeCalibrationLabelRecord.key := by
    refine List.map_congr_left fun l hl => ?_
    obtain ⟨rfl, rfl⟩ : l.binding_key = k ∧ l.generation = g := by
      simpa using (List.mem_filter.mp hl).right
    rfl
  rw [List.map_map, hkey]
  exact s.labels.nodup.sublist <| List.filter_sublist.map _

theorem mem_append {l' : Label} (h : l' ∈ (s.append_judge_calibration_label l).2.labels) :
    l' ∈ s.labels ∨ l' = l := by
  unfold append_judge_calibration_label at h
  split at h
  case h_1 labels hi =>
    have hrows := (Table.insert_eq_some_iff.mp hi).right
    simpa [Table.mem_rows, hrows] using h
  case h_2 => exact .inl h

theorem list_append (h : l.binding_key = k → l.generation ≠ g) :
    (s.append_judge_calibration_label l).2.list k g = s.list k g := by
  unfold append_judge_calibration_label
  split
  case h_1 labels hi =>
    have hrows := (Table.insert_eq_some_iff.mp hi).right
    have hl : (decide (l.binding_key = k) && decide (l.generation = g)) = false := by
      simpa using h
    simp [list_judge_calibration_labels, hrows, hl]
  case h_2 => rfl

theorem calibrations_append :
    (s.append_judge_calibration_label l).2.calibrations = s.calibrations := by
  unfold append_judge_calibration_label
  split <;> rfl

end State

-- Whether what a call has in hand is no longer so, once another made a call.
def Phase.disturbed_by : Phase → Call → Bool
  | .missing k, .upsert_judge_calibration r            => r.binding_key = k && r.generation ≠ 0
  | .missing k, .append_judge_calibration_label l      => l.binding_key = k
  | .read k g, .upsert_judge_calibration r
  | .counting k g, .upsert_judge_calibration r
  | .listed k g _ _, .upsert_judge_calibration r       => r.binding_key = k && r.generation ≠ g
  | .listed k g _ _, .append_judge_calibration_label l => l.binding_key = k && l.generation = g
  | _, _                                               => false

def Call.writes : Call → Bool
  | .upsert_judge_calibration _ => true
  | _                           => false

-- What a run did to the calls in progress. It is clean as long as no call writes the row of a
-- binding after another disturbed it, and none dies.
structure Log (ι : Type) where
  phase     : ι → Phase
  disturbed : ι → Bool
  clean     : Bool

namespace Log

variable {ι : Type} [DecidableEq ι]

def empty : Log ι where
  phase _     := .idle
  disturbed _ := false
  clean       := true

-- A call takes note of the others anew when it reads the row, until it lists the labels.
def renewed (d : Bool) : Phase → Bool
  | .counting _ _ | .listed _ _ _ _ => d
  | _                               => false

def serve (g : Log ι) (i : ι) (e : Event sig) : Log ι where
  phase       := Function.update g.phase i ((g.phase i).next e)
  disturbed j := if j = i then renewed (g.disturbed i) (g.phase i)
    else g.disturbed j || (g.phase j).disturbed_by e.call
  clean       := g.clean && !(e.call.writes && g.disturbed i)

def record (g : Log ι) : Prog.Crew.Label ι sig → Log ι
  | .run i (some e) => g.serve i e
  | .run _ none     => g
  | .start i        => { g with
    phase     := Function.update g.phase i .idle
    disturbed := Function.update g.disturbed i false }
  | .die i          => { g with phase := Function.update g.phase i .idle, clean := false }
  | .drift          => g

end Log

def log {ι : Type} [DecidableEq ι] (ls : List (Prog.Crew.Label ι sig)) : Log ι :=
  ls.foldl Log.record .empty

section Log

variable {ι : Type} [DecidableEq ι] (ls : List (Prog.Crew.Label ι sig))
variable (l : Prog.Crew.Label ι sig)

@[simp]
theorem log_snoc : log (ls ++ [l]) = (log ls).record l := by
  simp [log]

theorem log_phase : (log ls).phase = protocol.phases .idle ls := by
  induction ls using List.reverseRecOn with
  | nil                    => rfl
  | append_singleton ls l ih =>
    rw [log_snoc, Prog.Protocol.phases_snoc, ← ih]
    cases l with
    | run i e => cases e <;> rfl
    | _       => rfl

theorem clean_of_snoc (h : (log (ls ++ [l])).clean = true) : (log ls).clean = true := by
  rw [log_snoc] at h
  cases l with
  | run i e =>
    cases e with
    | none   => exact h
    | some e => exact (Bool.and_eq_true_iff.mp h).left
  | die i   => cases h
  | _       => exact h

end Log

-- What is true of the tables as long as the call in phase `x` is not disturbed, and what is true
-- even if it is.
def Holds (s : State) (disturbed : Bool) : Phase → Prop
  | .idle                 => True
  | .missing k            => disturbed = false →
    (∀ r, s.row k = some r → r.generation = 0) ∧ ∀ l ∈ s.labels, l.binding_key ≠ k
  | .read k g             =>
    ∃ r, s.row k = some r ∧ g ≤ r.generation ∧ (disturbed = false → r.generation = g)
  | .appended k           => ∃ r, s.row k = some r
  | .counting k g         => ∃ r, s.row k = some r ∧ (disturbed = false → r.generation = g)
  | .listed k g last labels =>
    ∃ r, s.row k = some r ∧
      (disturbed = false → r.generation = g ∧ last = g ∧ labels = s.list k g)
  | .stuck                => False

structure Consistent {ι : Type} (g : Log ι) (s : State) : Prop where
  labels  : ∀ l ∈ s.labels, ∃ r, s.row l.binding_key = some r ∧ l.generation ≤ r.generation
  derived : ∀ k r, s.row k = some r →
    Derived (s.list k r.generation) r ∨ ∃ i, (g.phase i).Pending k
  holds   : ∀ i, Holds s (g.disturbed i) (g.phase i)

section Others

variable {s : State} {d : Bool} {x : Phase}

theorem Holds.append {l : Label} (h : Holds s d x) :
    Holds (s.append_judge_calibration_label l).2
      (d || x.disturbed_by (.append_judge_calibration_label l)) x := by
  have hrow : ∀ k, (s.append_judge_calibration_label l).2.row k = s.row k := fun k => by
    rw [State.row, State.calibrations_append]
  cases x with
  | idle | stuck        => exact h
  | appended k          =>
    obtain ⟨r, hr⟩ := h
    exact ⟨r, (hrow k).trans hr⟩
  | read k g            =>
    obtain ⟨r, hr, hg, hd⟩ := h
    exact ⟨r, (hrow k).trans hr, hg, fun h => hd (Bool.or_eq_false_iff.mp h).left⟩
  | counting k g        =>
    obtain ⟨r, hr, hd⟩ := h
    exact ⟨r, (hrow k).trans hr, fun h => hd (Bool.or_eq_false_iff.mp h).left⟩
  | missing k           =>
    intro hdist
    obtain ⟨hd, hl⟩ := Bool.or_eq_false_iff.mp hdist
    have hl : l.binding_key ≠ k := of_decide_eq_false hl
    refine ⟨fun r hr => (h hd).left r <| (hrow k).symm.trans hr, fun l' hl' => ?_⟩
    rcases State.mem_append hl' with hl' | rfl
    · exact (h hd).right l' hl'
    · exact hl
  | listed k g last labels =>
    obtain ⟨r, hr, hd⟩ := h
    refine ⟨r, (hrow k).trans hr, fun hdist => ?_⟩
    obtain ⟨hd', hl⟩ := Bool.or_eq_false_iff.mp hdist
    have hl : l.binding_key = k → l.generation ≠ g := by
      simpa [Phase.disturbed_by] using hl
    obtain ⟨hg, hlast, hlabels⟩ := hd hd'
    exact ⟨hg, hlast, hlabels.trans (State.list_append hl).symm⟩

theorem row_upsert {r : Row} {k : String} :
    State.row { s with calibrations := s.calibrations.upsert r } k =
      if r.binding_key = k then some r else s.row k :=
  Table.find_upsert

theorem Holds.upsert {r : Row} (hr : ∀ old, s.row r.binding_key = some old →
    old.generation ≤ r.generation) (h : Holds s d x) :
    Holds { s with calibrations := s.calibrations.upsert r }
      (d || x.disturbed_by (.upsert_judge_calibration r)) x := by
  cases x with
  | idle | stuck        => exact h
  | appended k          =>
    obtain ⟨old, ho⟩ := h
    by_cases hk : r.binding_key = k
    · exact ⟨r, row_upsert.trans <| if_pos hk⟩
    · exact ⟨old, row_upsert.trans <| (if_neg hk).trans ho⟩
  | read k g            =>
    obtain ⟨old, ho, hg, hd⟩ := h
    by_cases hk : r.binding_key = k
    · refine ⟨r, row_upsert.trans <| if_pos hk, hg.trans <| hr old <| hk ▸ ho, fun hdist => ?_⟩
      simpa [Phase.disturbed_by, hk] using (Bool.or_eq_false_iff.mp hdist).right
    · exact ⟨old, row_upsert.trans <| (if_neg hk).trans ho, hg,
        fun hdist => hd (Bool.or_eq_false_iff.mp hdist).left⟩
  | counting k g        =>
    obtain ⟨old, ho, hd⟩ := h
    by_cases hk : r.binding_key = k
    · refine ⟨r, row_upsert.trans <| if_pos hk, fun hdist => ?_⟩
      simpa [Phase.disturbed_by, hk] using (Bool.or_eq_false_iff.mp hdist).right
    · exact ⟨old, row_upsert.trans <| (if_neg hk).trans ho,
        fun hdist => hd (Bool.or_eq_false_iff.mp hdist).left⟩
  | missing k           =>
    intro hdist
    obtain ⟨hd, hd'⟩ := Bool.or_eq_false_iff.mp hdist
    refine ⟨fun r' hr' => ?_, (h hd).right⟩
    rw [row_upsert] at hr'
    split at hr'
    case isTrue hk  =>
      obtain rfl := Option.some.inj hr'
      simpa [Phase.disturbed_by, hk] using hd'
    case isFalse hk => exact (h hd).left r' hr'
  | listed k g last labels =>
    obtain ⟨old, ho, hd⟩ := h
    by_cases hk : r.binding_key = k
    · refine ⟨r, row_upsert.trans <| if_pos hk, fun hdist => ?_⟩
      obtain ⟨hd', hg⟩ := Bool.or_eq_false_iff.mp hdist
      exact ⟨by simpa [Phase.disturbed_by, hk] using hg, (hd hd').right⟩
    · exact ⟨old, row_upsert.trans <| (if_neg hk).trans ho,
        fun hdist => hd (Bool.or_eq_false_iff.mp hdist).left⟩

end Others

section Own

variable {s : State} {d : Bool} {x : Phase} {key k : String}

theorem pending_found (hx : Holds s d x) (ha : x.allows (.get_judge_calibration key))
    (hp : x.Pending k) : (x.found key (s.row key)).Pending k := by
  cases x with
  | appended k'      =>
    obtain rfl : key = k' := ha
    obtain ⟨r, hr⟩ := hx
    rw [hr]
    exact hp
  | counting k' g    =>
    obtain rfl : key = k' := ha
    obtain ⟨r, hr, -⟩ := hx
    rw [hr]
    exact hp
  | listed k' g m ls =>
    obtain rfl : key = k' := ha
    obtain ⟨r, hr, -⟩ := hx
    rw [hr]
    exact hp
  | _                => exact hp.elim

theorem holds_found (hl : ∀ l ∈ s.labels, ∃ r, s.row l.binding_key = some r) (hx : Holds s d x)
    (ha : x.allows (.get_judge_calibration key)) :
    Holds s (Log.renewed d x) (x.found key (s.row key)) := by
  have hfresh : ∀ y : Phase, y.found key (s.row key) =
      (match s.row key with | some r => .read key r.generation | none => .missing key) →
      Holds s false (y.found key (s.row key)) := by
    intro y hy
    rw [hy]
    cases hr : s.row key with
    | some r => exact ⟨r, hr, le_rfl, fun _ => rfl⟩
    | none   =>
      refine fun _ => ⟨fun r hr' => ?_, fun l hl' hk => ?_⟩
      · cases hr.symm.trans hr'
      · obtain ⟨r, hr'⟩ := hl l hl'
        rw [hk, hr] at hr'
        cases hr'
  cases x with
  | stuck            => exact hx.elim
  | appended k'      =>
    obtain rfl : key = k' := ha
    obtain ⟨r, hr⟩ := hx
    rw [hr]
    exact ⟨r, hr, fun _ => rfl⟩
  | counting k' g    =>
    obtain rfl : key = k' := ha
    obtain ⟨r, hr, -⟩ := hx
    rw [hr]
    exact ⟨r, hr, fun _ => rfl⟩
  | listed k' g m ls =>
    obtain rfl : key = k' := ha
    obtain ⟨r, hr, hd⟩ := hx
    rw [hr]
    exact ⟨r, hr, fun h => ⟨(hd h).left, (hd h).left, (hd h).right.right⟩⟩
  | _                => exact hfresh _ <| by cases s.row key <;> rfl

-- What a call that was not disturbed writes counts the labels of its generation, and leaves none
-- behind of a later one.
theorem written {r : Row}
    (hl : ∀ l ∈ s.labels, ∃ r, s.row l.binding_key = some r ∧ l.generation ≤ r.generation)
    (hx : Holds s false x) (ha : x.allows (.upsert_judge_calibration r)) :
    (∀ old, s.row r.binding_key = some old → old.generation ≤ r.generation) ∧
    Derived (s.list r.binding_key r.generation) r ∧
    ∀ l ∈ s.labels, l.binding_key = r.binding_key → l.generation ≤ r.generation := by
  have hrow : ∀ old, s.row r.binding_key = some old → ∀ l ∈ s.labels,
      l.binding_key = r.binding_key → l.generation ≤ old.generation := by
    intro old ho l hm hk
    obtain ⟨r', hr', hg⟩ := hl l hm
    rw [hk, ho] at hr'
    exact Option.some.inj hr' ▸ hg
  cases x with
  | missing k          =>
    obtain ⟨rfl, hg, hd⟩ := ha
    obtain ⟨hzero, hnone⟩ := hx rfl
    refine ⟨fun old ho => (hzero old ho).trans_le <| Nat.zero_le _, ?_,
      fun l hm hk => absurd hk <| hnone l hm⟩
    rwa [State.list_eq_nil fun l hm hk => absurd hk <| hnone l hm]
  | read k g           =>
    obtain ⟨rfl, hg, hd⟩ := ha
    obtain ⟨old, ho, -, hold⟩ := hx
    have hlt : ∀ l ∈ s.labels, l.binding_key = r.binding_key → l.generation < r.generation := by
      intro l hm hk
      rw [hg]
      exact Nat.lt_succ_of_le <| hold rfl ▸ hrow old ho l hm hk
    refine ⟨fun old' ho' => ?_, ?_, fun l hm hk => (hlt l hm hk).le⟩
    · obtain rfl := Option.some.inj <| ho.symm.trans ho'
      rw [hg, hold rfl]
      exact Nat.le_succ g
    · rwa [State.list_eq_nil fun l hm hk => (hlt l hm hk).ne]
  | listed k g last ls =>
    obtain ⟨rfl, hg, hd⟩ := ha
    obtain ⟨old, ho, hold⟩ := hx
    obtain ⟨hgen, rfl, rfl⟩ := hold rfl
    have hle : old.generation = r.generation := hgen.trans hg.symm
    refine ⟨fun old' ho' => ?_, hg ▸ hd, fun l hm hk => hle ▸ hrow old ho l hm hk⟩
    obtain rfl := Option.some.inj <| ho.symm.trans ho'
    exact hle.le
  | _                  => exact ha.elim

end Own

-- The generation of a row never goes back.
def Later (s t : State) : Prop :=
  ∀ k r, s.row k = some r → ∃ r', t.row k = some r' ∧ r.generation ≤ r'.generation

theorem Later.refl (s : State) : Later s s :=
  fun _ r hr => ⟨r, hr, le_rfl⟩

theorem Later.trans {s t u : State} (h : Later s t) (h' : Later t u) : Later s u := by
  intro k r hr
  obtain ⟨r', hr', hg⟩ := h k r hr
  obtain ⟨r'', hr'', hg'⟩ := h' k r' hr'
  exact ⟨r'', hr'', hg.trans hg'⟩

namespace Consistent

variable {ι : Type} [DecidableEq ι] {g : Log ι} {s t : State} {i : ι}

omit [DecidableEq ι] in
theorem empty (hc : s.calibrations.rows = []) (hl : s.labels.rows = []) :
    Consistent (ι := ι) .empty s where
  labels l hm    := by simp [Table.mem_rows, hl] at hm
  derived k r hr := by simp [State.row, Table.find, hc] at hr
  holds i        := trivial

theorem get {key : String} (h : Consistent g s)
    (ha : (g.phase i).allows (.get_judge_calibration key)) :
    Consistent (g.serve i ⟨.get_judge_calibration key, .ok (s.row key)⟩) s where
  labels         := h.labels
  derived k r hr := by
    refine (h.derived k r hr).imp_right ?_
    rintro ⟨j, hj⟩
    refine ⟨j, ?_⟩
    by_cases hi : j = i
    · subst hi
      simpa [Log.serve, Phase.next] using pending_found (h.holds j) ha hj
    · simpa [Log.serve, hi] using hj
  holds j        := by
    by_cases hi : j = i
    · subst hi
      have hl : ∀ l ∈ s.labels, ∃ r, s.row l.binding_key = some r := fun l hl =>
        (h.labels l hl).imp fun _ => And.left
      simpa [Log.serve, Phase.next] using holds_found hl (h.holds j) ha
    · have hd : ∀ x : Phase, x.disturbed_by (.get_judge_calibration key) = false := by
        intro x
        cases x <;> rfl
      simpa [Log.serve, hi, hd] using h.holds j

theorem list {key : String} {n : ℕ} (h : Consistent g s)
    (ha : (g.phase i).allows (.list_judge_calibration_labels key n)) :
    Consistent (g.serve i ⟨.list_judge_calibration_labels key n, .ok (s.list key n)⟩) s := by
  obtain ⟨k, m, hp⟩ : ∃ k m, g.phase i = .counting k m := by
    cases hp : g.phase i <;> simp [hp, Phase.allows] at ha ⊢
  rw [hp] at ha
  obtain ⟨rfl, rfl⟩ : key = k ∧ n = m := ha
  refine ⟨h.labels, fun k r hr => ?_, fun j => ?_⟩
  · refine (h.derived k r hr).imp_right ?_
    rintro ⟨j, hj⟩
    refine ⟨j, ?_⟩
    by_cases hi : j = i
    · subst hi
      rw [hp] at hj
      simpa [Log.serve, Phase.next, Phase.Pending] using hj
    · simpa [Log.serve, hi] using hj
  · by_cases hi : j = i
    · subst hi
      have hold := h.holds j
      rw [hp] at hold
      obtain ⟨r, hr, hd⟩ := hold
      have hlisted : Holds s (g.disturbed j) (.listed key n n (s.list key n)) :=
        ⟨r, hr, fun h => ⟨hd h, rfl, rfl⟩⟩
      simpa [Log.serve, Phase.next, hp, Log.renewed] using hlisted
    · have hd : ∀ x : Phase, x.disturbed_by (.list_judge_calibration_labels key n) = false := by
        intro x
        cases x <;> rfl
      simpa [Log.serve, hi, hd] using h.holds j

theorem append {l : Label} {reply : Except Error Label} (h : Consistent g s)
    (ha : (g.phase i).allows (.append_judge_calibration_label l)) :
    Consistent (g.serve i ⟨.append_judge_calibration_label l, reply⟩)
      (s.append_judge_calibration_label l).2 := by
  obtain ⟨k, n, hp⟩ : ∃ k n, g.phase i = .read k n := by
    cases hp : g.phase i <;> simp [hp, Phase.allows] at ha ⊢
  rw [hp] at ha
  obtain ⟨hk, hn⟩ : l.binding_key = k ∧ l.generation = n := ha
  have hold := h.holds i
  rw [hp] at hold
  obtain ⟨r, hr, hle, -⟩ := hold
  have hrow : ∀ k, (s.append_judge_calibration_label l).2.row k = s.row k := fun k => by
    rw [State.row, State.calibrations_append]
  refine ⟨fun l' hl' => ?_, fun k' r' hr' => ?_, fun j => ?_⟩
  · rw [hrow]
    rcases State.mem_append hl' with hl' | rfl
    · exact h.labels l' hl'
    · exact ⟨r, hk ▸ hr, hn ▸ hle⟩
  · by_cases hkey : k' = l.binding_key
    · exact .inr ⟨i, by simp [Log.serve, Phase.next, Phase.Pending, hkey]⟩
    · rw [State.list_append fun he => absurd he.symm hkey]
      refine (h.derived k' r' <| (hrow k').symm.trans hr').imp_right ?_
      rintro ⟨j, hj⟩
      refine ⟨j, ?_⟩
      by_cases hi : j = i
      · subst hi
        rw [hp] at hj
        exact hj.elim
      · simpa [Log.serve, hi] using hj
  · by_cases hi : j = i
    · subst hi
      have happended : Holds (s.append_judge_calibration_label l).2
          (Log.renewed (g.disturbed j) (g.phase j)) (.appended l.binding_key) :=
        ⟨r, (hrow _).trans <| hk ▸ hr⟩
      simpa [Log.serve, Phase.next] using happended
    · simpa [Log.serve, hi] using (h.holds j).append

theorem upsert {r : Row} {reply : Except Error Unit} (h : Consistent g s)
    (ha : (g.phase i).allows (.upsert_judge_calibration r)) (hd : g.disturbed i = false) :
    Consistent (g.serve i ⟨.upsert_judge_calibration r, reply⟩)
      { s with calibrations := s.calibrations.upsert r } ∧
    Later s { s with calibrations := s.calibrations.upsert r } := by
  obtain ⟨hle, hderived, hlabels⟩ := written h.labels (hd ▸ h.holds i) ha
  refine ⟨⟨fun l hl => ?_, fun k r' hr' => ?_, fun j => ?_⟩, fun k old ho => ?_⟩
  · rw [row_upsert]
    split
    case isTrue hk  => exact ⟨r, rfl, hlabels l hl hk.symm⟩
    case isFalse hk => exact h.labels l hl
  · rw [row_upsert] at hr'
    split at hr'
    case isTrue hk  =>
      obtain rfl := Option.some.inj hr'
      exact .inl <| hk ▸ hderived
    case isFalse hk =>
      refine (h.derived k r' hr').imp_right ?_
      rintro ⟨j, hj⟩
      refine ⟨j, ?_⟩
      by_cases hi : j = i
      · subst hi
        exfalso
        cases hp : g.phase j <;> rw [hp] at hj ha
        case listed k' _ _ _ => exact hk <| ha.left.trans hj
        all_goals first | exact hj.elim | exact ha.elim
      · simpa [Log.serve, hi] using hj
  · by_cases hi : j = i
    · subst hi
      simp [Log.serve, Phase.next, Holds]
    · simpa [Log.serve, hi] using (h.holds j).upsert hle
  · rw [row_upsert]
    split
    case isTrue hk  => exact ⟨r, rfl, hle old <| hk ▸ ho⟩
    case isFalse hk => exact ⟨old, ho, le_rfl⟩

theorem serve {e : Event sig} (h : Consistent g s) (ha : (g.phase i).allows e.call)
    (he : store.perform e.call s = (e.reply, t))
    (hc : e.call.writes = true → g.disturbed i = false) :
    Consistent (g.serve i e) t ∧ Later s t := by
  obtain ⟨c, r⟩ := e
  cases c with
  | get_judge_calibration key           =>
    obtain ⟨rfl, rfl⟩ := Prod.mk.inj he
    exact ⟨h.get ha, .refl s⟩
  | list_judge_calibration_labels key n =>
    obtain ⟨rfl, rfl⟩ := Prod.mk.inj he
    exact ⟨h.list ha, .refl s⟩
  | append_judge_calibration_label l    =>
    obtain ⟨rfl, rfl⟩ := Prod.mk.inj he
    refine ⟨h.append ha, fun k r hr => ⟨r, ?_, le_rfl⟩⟩
    rwa [State.row, State.calibrations_append]
  | upsert_judge_calibration r          =>
    obtain ⟨rfl, rfl⟩ := Prod.mk.inj he
    exact h.upsert ha <| hc rfl

theorem start (h : Consistent g s) (hi : (g.phase i).Settled) :
    Consistent (g.record (.start i)) s where
  labels         := h.labels
  derived k r hr := by
    refine (h.derived k r hr).imp_right ?_
    rintro ⟨j, hj⟩
    have hne : j ≠ i := by
      rintro rfl
      exact hi k hj
    exact ⟨j, by simpa [Log.record, hne] using hj⟩
  holds j        := by
    by_cases hj : j = i
    · subst hj
      simp [Log.record, Holds]
    · simpa [Log.record, hj] using h.holds j

end Consistent

-- Callers that record labels, reset bindings and read them.
def crew (py : Python) (binding_key : JudgeBinding → String) (ι : Type) :
    Prog.Crew ι store JudgeReadiness where
  allow _ _    := True
  ready _ _    := True
  programs _ p :=
    (∃ actor binding case_id human_label judge_label label_id,
      p = record_label py binding_key actor binding case_id human_label judge_label label_id) ∨
    (∃ actor binding, p = reset binding_key actor binding) ∨
    ∃ actor binding, p = get binding_key actor binding
  init s       := s.calibrations.rows = [] ∧ s.labels.rows = []
  abandon _ s  := s
  drift _ _    := False
  idle         := .throw .assertion_error

section Runs

variable {py : Python} {binding_key : JudgeBinding → String} {ι : Type} [DecidableEq ι]
variable {x y z : Prog.Pool ι store JudgeReadiness} {ls ls' : List (Prog.Crew.Label ι sig)}

theorem orderly_of_run (hx : (crew py binding_key ι).machine.init x)
    (r : (crew py binding_key ι).machine.Run x ls y) (i : ι) :
    Prog.Crew.Orderly protocol Phase.Settled (y.threads i) ((log ls).phase i) := by
  have hprograms : ∀ i p, (crew py binding_key ι).programs i p →
      Prog.Crew.Orderly protocol Phase.Settled p .idle := by
    rintro i _ (⟨_, _, _, _, _, _, rfl⟩ | ⟨_, _, rfl⟩ | ⟨_, _, rfl⟩)
    · exact follows_record_label
    · exact follows_reset
    · exact (follows_get <| .inl rfl).mono (fun _ _ h => by obtain ⟨g, rfl⟩ := h; exact fun _ => id)
        fun _ _ => id
  rw [log_phase]
  exact Prog.Crew.orderly (P := protocol) (w := crew py binding_key ι) rfl trivial (fun _ => id)
    hprograms hx r i

theorem consistent_step {l : Prog.Crew.Label ι sig} (hx : (crew py binding_key ι).machine.init x)
    (r : (crew py binding_key ι).machine.Run x ls y) (st : (crew py binding_key ι).Step y l z)
    (hc : (log (ls ++ [l])).clean = true) (h : Consistent (log ls) y.store) :
    Consistent (log (ls ++ [l])) z.store ∧ Later y.store z.store := by
  have horder := orderly_of_run hx r
  rw [log_snoc] at hc ⊢
  cases st with
  | run i e p t st _ =>
    have hallowed := ((horder i).step st).left
    cases e with
    | none   =>
      have hserved : t = y.store := st.serves
      change Consistent (log ls) t ∧ Later y.store t
      rw [hserved]
      exact ⟨h, .refl _⟩
    | some e =>
      refine h.serve (hallowed e rfl) st.serves fun hw => ?_
      simpa [hw] using (Bool.and_eq_true_iff.mp hc).right
  | start i p he _   => exact ⟨h.start <| (horder i).done_of_ended he, .refl _⟩
  | die i            => cases hc
  | drift t hd       => exact hd.elim

theorem consistent_of_run (hx : (crew py binding_key ι).machine.init x)
    (r : (crew py binding_key ι).machine.Run x ls y) (hc : (log ls).clean = true) :
    Consistent (log ls) y.store := by
  induction r with
  | refl         => exact .empty hx.right.left hx.right.right
  | step r st ih => exact consistent_step hx r st hc (ih <| clean_of_snoc _ _ hc) |>.left

theorem later_of_run (hx : (crew py binding_key ι).machine.init x)
    (r : (crew py binding_key ι).machine.Run x ls y)
    (r' : (crew py binding_key ι).machine.Run y ls' z) (hc : (log (ls ++ ls')).clean = true) :
    Later y.store z.store := by
  induction r' with
  | refl           => exact .refl _
  | step r' st ih =>
    rw [← List.append_assoc] at hc
    have hc' := clean_of_snoc _ _ hc
    have hrun := r.trans r'
    exact (ih hc').trans
      (consistent_step hx hrun st hc <| consistent_of_run hx hrun hc').right

-- The state of a binding as the registry reads it.
def State.readiness_of (s : State) (binding_key : JudgeBinding → String) (b : JudgeBinding) :
    ReadinessState :=
  (s.row (binding_key b)).elim .UNCALIBRATED (·.state)

-- What holds of the tables while no call is in progress.
structure Current (binding_key : JudgeBinding → String) (s : State) : Prop where
  derived    : ∀ k r, s.row k = some r → Derived (s.list k r.generation) r
  calibrated : ∀ k r, s.row k = some r → r.state = .CALIBRATED →
    r.min_labels ≤ (s.list k r.generation).length ∧
      ∃ kappa, kappa_of (s.list k r.generation) = some kappa ∧ r.kappa_ready ≤ kappa
  counted    : ∀ k g, (∀ l ∈ s.list k g, l.binding_key = k ∧ l.generation = g) ∧
    ((s.list k g).map (·.label_id)).Nodup
  gated      : ∀ metrics, ∀ m ∈ gate_safe metrics (some <| s.readiness_of binding_key),
    m.type = .judge → ∃ b r, m.judge_binding = some b ∧ s.row (binding_key b) = some r ∧
      r.state = .CALIBRATED
  unregistered : ∀ metrics, ∀ m ∈ gate_safe metrics none, m.type ≠ .judge

theorem current_of_derived {s : State}
    (h : ∀ k r, s.row k = some r → Derived (s.list k r.generation) r) : Current binding_key s where
  derived              := h
  calibrated k r hr    := (h k r hr).sufficient
  counted k g          := ⟨fun l hl => (State.mem_list.mp hl).right, State.nodup_list⟩
  gated metrics m hm hj := by
    have hgate := (List.mem_filter.mp hm).right
    simp only [may_gate, hj, ne_eq, not_true_eq_false, decide_false, Bool.false_or, Option.any_some,
      Bool.and_eq_true] at hgate
    obtain ⟨b, hb, hs⟩ := Option.any_eq_true _ _ |>.mp hgate.right
    have hs : s.readiness_of binding_key b = .CALIBRATED := of_decide_eq_true hs
    unfold State.readiness_of at hs
    cases hr : s.row (binding_key b) with
    | none   => simp [hr] at hs
    | some r => exact ⟨b, r, hb, hr, by simpa [hr] using hs⟩
  unregistered metrics m hm hj := by
    have hgate := (List.mem_filter.mp hm).right
    simp [may_gate, hj] at hgate

end Runs

namespace Sample

def binding : JudgeBinding where
  provider       := "provider"
  model          := "model"
  schema_version := "1"
  rubric_version := "1"

def owner : Actor :=
  ⟨"owner", "workspace", .owner⟩

def key (b : JudgeBinding) : String :=
  b.provider

def env : ∀ q, sig.Answer q
  | .uuid4 => "label"
  | .now   => (0 : Int)

def labelling : Prog sig JudgeReadiness :=
  record_label .ascii key owner binding "case" (.int 1) (.int 1) none

def resetting : Prog sig JudgeReadiness :=
  reset key owner binding

abbrev callers : Prog.Crew Bool store JudgeReadiness :=
  crew .ascii key Bool

def pool : Prog.Pool Bool store JudgeReadiness where
  threads _ := .throw .assertion_error
  store     := ⟨.empty, .empty⟩

-- The first caller records a label and makes `n` of its moves before the second resets the binding.
def interleaved (n : ℕ) : List (Prog.Crew.Label Bool sig) × Prog.Pool Bool store JudgeReadiness :=
  callers.play env ([.start false labelling] ++ List.replicate n (.run false) ++
    [.start true resetting] ++ List.replicate 9 (.run true) ++ List.replicate 12 (.run false)) pool

theorem init : callers.machine.init pool :=
  ⟨fun _ => rfl, rfl, rfl⟩

theorem run (n : ℕ) : callers.machine.Run pool (interleaved n).1 (interleaved n).2 := by
  refine Prog.Crew.play_run (fun _ => trivial) (fun _ _ => trivial) _ (fun i p h => ?_) pool
  simp only [List.mem_append, List.mem_singleton, List.mem_replicate] at h
  rcases h with (((h | h) | h) | h) | h
  · obtain ⟨-, rfl⟩ := Prog.Crew.Turn.start.inj h
    exact .inl ⟨_, _, _, _, _, _, rfl⟩
  · cases h.right
  · obtain ⟨-, rfl⟩ := Prog.Crew.Turn.start.inj h
    exact .inr <| .inl ⟨_, _, rfl⟩
  · cases h.right
  · cases h.right

end Sample

def dies {ι : Type} : Prog.Crew.Label ι sig → Bool
  | .die _ => true
  | _      => false

end Calibration
