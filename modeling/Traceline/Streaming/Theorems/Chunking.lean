import Mathlib.Tactic
import Traceline.Library.Except
import Traceline.Streaming.Parser

-- For which streams it does not matter how they are cut into chunks.
namespace Streaming

open Except (bind_eq_ok_iff)

namespace SSEParser

-- What a line is to the parser.
inductive LineKind
  | blank
  | comment
  | field
  | bad
  deriving DecidableEq, Repr

section

variable (decode : Bytes → Option String)

def kind (line : Bytes) : LineKind :=
  match rstrip line with
  | []        => .blank
  | b :: rest =>
    if b = 58 then .comment
    else
      match field decode (b :: rest) with
      | .ok _    => .field
      | .error _ => .bad

-- How many frames the lines end, where a field may be pending.
def ended : Bool → List Bytes → ℕ
  | _,       []        => 0
  | pending, l :: rest =>
    match kind decode l with
    | .blank   => (if pending then 1 else 0) + ended false rest
    | .field   => ended true rest
    | .comment => ended pending rest
    | .bad     => ended pending rest

-- The bytes of lines that are all terminated.
def joined (lines : List Bytes) : Bytes :=
  lines.flatMap (· ++ [10])

-- Lines that the parser takes without a word.
structure Quiet (lines : List Bytes) : Prop where
  good   : ∀ l ∈ lines, kind decode l ≠ .bad
  silent : ended decode false lines = 0

-- The streams that are parsed the same however they are cut: those that fit the limit as a whole and
-- hold no error, those that fit and hold an error before their first frame, and those whose first
-- frame does not end before a line that is over the limit.
inductive Uncut (max_frame_bytes max_frames : Int) (stream : Bytes) : Prop
  | whole
    (fits  : stream.length ≤ max_frame_bytes)
    (good  : ∀ l ∈ (partition stream).1, kind decode l ≠ .bad)
    (count : ended decode false (partition stream).1 ≤ max_frames.toNat)
  | early {before after : List Bytes} {line : Bytes}
    (fits  : stream.length ≤ max_frame_bytes)
    (lines : (partition stream).1 = before ++ line :: after)
    (quiet : Quiet decode before)
    (stops : kind decode line = .bad ∨ max_frames ≤ 0 ∧ ended decode false (before ++ [line]) ≠ 0)
  | long {before : List Bytes} {rest : Bytes}
    (split  : stream = joined before ++ rest)
    (lines  : ∀ l ∈ before, 10 ∉ l)
    (quiet  : Quiet decode before)
    (excess : max_frame_bytes.toNat < rest.length)
    (line   : 10 ∉ rest.take max_frame_bytes.toNat)

end

variable {decode : Bytes → Option String} {p q : SSEParser} {ls ls' before : List Bytes}
variable {l r s stream rest : Bytes} {frames : List StreamFrame} {e : StreamProtocolError}
variable {chunks : List Bytes}

theorem joined_cons : joined (l :: ls) = l ++ 10 :: joined ls := by
  simp [joined]

theorem joined_append : joined (ls ++ ls') = joined ls ++ joined ls' := by
  simp [joined]

theorem partition_of_not_mem (h : 10 ∉ r) : partition r = ([], r) := by
  induction r with
  | nil         => rfl
  | cons b r ih =>
    have hb : b ≠ 10 := fun hb => h (hb ▸ List.mem_cons_self)
    rw [partition, ih fun hr => h (List.mem_cons_of_mem b hr)]
    simp [hb]

theorem partition_line (h : 10 ∉ l) :
    partition (l ++ 10 :: r) = (l :: (partition r).1, (partition r).2) := by
  induction l with
  | nil         => simp [partition]
  | cons b l ih =>
    have hb : b ≠ 10 := fun hb => h (hb ▸ List.mem_cons_self)
    rw [List.cons_append, partition, ih fun hl => h (List.mem_cons_of_mem b hl)]
    simp [hb]

-- A buffer is its lines and what is left.
theorem partition_joined (hl : ∀ l ∈ ls, 10 ∉ l) (hr : 10 ∉ r) : partition (joined ls ++ r) = (ls, r) := by
  induction ls with
  | nil          => simpa [joined] using partition_of_not_mem hr
  | cons l ls ih =>
    rw [joined_cons, List.append_assoc, List.cons_append, partition_line (hl l List.mem_cons_self),
      ih fun l' hl' => hl l' (List.mem_cons_of_mem l hl')]

theorem exists_joined (b : Bytes) : ∃ ls r, b = joined ls ++ r ∧ (∀ l ∈ ls, 10 ∉ l) ∧ 10 ∉ r := by
  induction b with
  | nil         => exact ⟨[], [], rfl, nofun, List.not_mem_nil⟩
  | cons b s ih =>
    obtain ⟨ls, r, rfl, hl, hr⟩ := ih
    by_cases hb : b = 10
    case pos =>
      refine ⟨[] :: ls, r, by simp [joined_cons, hb], ?_, hr⟩
      simpa using hl
    case neg =>
      cases ls with
      | nil       => exact ⟨[], b :: r, rfl, nofun, by simp [Ne.symm hb, hr]⟩
      | cons l ls =>
        refine ⟨(b :: l) :: ls, r, by simp [joined_cons], ?_, hr⟩
        simpa [Ne.symm hb] using hl

theorem partition_spec (b : Bytes) :
    b = joined (partition b).1 ++ (partition b).2 ∧ (∀ l ∈ (partition b).1, 10 ∉ l) ∧
      10 ∉ (partition b).2 := by
  obtain ⟨ls, r, rfl, hl, hr⟩ := exists_joined b
  rw [partition_joined hl hr]
  exact ⟨rfl, hl, hr⟩

-- The lines of a buffer that is read on.
theorem partition_append (b s : Bytes) :
    partition (b ++ s) = ((partition b).1 ++ (partition ((partition b).2 ++ s)).1,
      (partition ((partition b).2 ++ s)).2) := by
  obtain ⟨ls, r, rfl, hl, hr⟩ := exists_joined b
  rw [partition_joined hl hr]
  obtain ⟨ls', r', he, hl', hr'⟩ := exists_joined (r ++ s)
  rw [List.append_assoc, he, partition_joined hl' hr', ← List.append_assoc, ← joined_append]
  refine partition_joined (fun l hm => ?_) hr'
  rcases List.mem_append.mp hm with hm | hm
  · exact hl l hm
  · exact hl' l hm

-- The buffer is not read while lines are.
theorem line_buffer {b : Bytes} : line decode { p with _buffer := b } l =
    (line decode p l).map fun x => (x.1, { x.2 with _buffer := b }) := by
  unfold line
  split
  case h_1 =>
    dsimp only
    split
    case isTrue  => rfl
    case isFalse =>
      unfold _finish check
      dsimp only
      split <;> rfl
  case h_2 =>
    split
    case isTrue  => rfl
    case isFalse =>
      cases field decode _ <;> rfl

theorem lines_buffer {b : Bytes} : lines decode { p with _buffer := b } ls =
    (lines decode p ls).map fun x => (x.1, { x.2 with _buffer := b }) := by
  induction ls generalizing p with
  | nil          => rfl
  | cons l ls ih =>
    unfold lines
    rw [line_buffer]
    cases line decode p l with
    | error e => rfl
    | ok x    =>
      simp only [Except.map, bind, Except.bind]
      rw [ih]
      cases lines decode x.2 ls <;> rfl

theorem lines_append : lines decode p (ls ++ ls') = (do
    let (frames, p)  ← lines decode p ls
    let (frames', p) ← lines decode p ls'
    return (frames ++ frames', p)) := by
  induction ls generalizing p with
  | nil          =>
    simp only [lines, List.nil_append, bind, Except.bind]
    cases lines decode p ls' <;> rfl
  | cons l ls ih =>
    simp only [List.cons_append, lines, bind, Except.bind]
    cases line decode p l with
    | error e => rfl
    | ok x    =>
      simp only [ih, bind, Except.bind]
      cases lines decode x.2 ls with
      | error e => rfl
      | ok y    =>
        simp only [pure, Except.pure]
        cases lines decode y.2 ls' with
        | error e => rfl
        | ok z    => simp

theorem lines_append_ok_iff : lines decode p (ls ++ ls') = .ok (frames, q) ↔
    ∃ f p' f', lines decode p ls = .ok (f, p') ∧ lines decode p' ls' = .ok (f', q) ∧ frames = f ++ f' := by
  rw [lines_append, bind_eq_ok_iff]
  constructor
  · rintro ⟨⟨f, p'⟩, hl, h⟩
    obtain ⟨⟨f', q'⟩, hl', h⟩ := bind_eq_ok_iff.mp h
    cases h
    exact ⟨f, p', f', hl, hl', rfl⟩
  · rintro ⟨f, p', f', hl, hl', rfl⟩
    exact ⟨(f, p'), hl, by simp [hl', bind, Except.bind, pure, Except.pure]⟩

-- The lines up to one that is an error.
theorem lines_error (hp : lines decode p before = .ok (frames, q)) (hl : line decode q l = .error e) :
    lines decode p (before ++ l :: ls) = .error e := by
  rw [lines_append, hp]
  simp [lines, hl, bind, Except.bind]

-- Reading lines changes neither the limits nor the buffer.
theorem line_limits (h : line decode p l = .ok (frames, q)) :
    q.max_frame_bytes = p.max_frame_bytes ∧ q.max_frames = p.max_frames ∧ q._buffer = p._buffer := by
  unfold line at h
  split at h
  case h_1 =>
    split at h
    case isTrue  =>
      cases h
      exact ⟨rfl, rfl, rfl⟩
    case isFalse =>
      obtain ⟨x, hx, h⟩ := bind_eq_ok_iff.mp h
      obtain ⟨_, -, hx⟩ := bind_eq_ok_iff.mp hx
      cases hx
      cases h
      exact ⟨rfl, rfl, rfl⟩
  case h_2 =>
    split at h
    case isTrue  =>
      cases h
      exact ⟨rfl, rfl, rfl⟩
    case isFalse =>
      obtain ⟨_, -, h⟩ := bind_eq_ok_iff.mp h
      cases h
      exact ⟨rfl, rfl, rfl⟩

theorem lines_limits (h : lines decode p ls = .ok (frames, q)) :
    q.max_frame_bytes = p.max_frame_bytes ∧ q.max_frames = p.max_frames ∧ q._buffer = p._buffer := by
  induction ls generalizing p frames with
  | nil          =>
    cases h
    exact ⟨rfl, rfl, rfl⟩
  | cons l ls ih =>
    obtain ⟨⟨f, p'⟩, hl, h⟩ := bind_eq_ok_iff.mp h
    obtain ⟨⟨f', q'⟩, hls, h⟩ := bind_eq_ok_iff.mp h
    cases h
    obtain ⟨hb, hf, hbuf⟩ := line_limits hl
    obtain ⟨hb', hf', hbuf'⟩ := ih hls
    exact ⟨hb'.trans hb, hf'.trans hf, hbuf'.trans hbuf⟩

theorem feed_of_fits (hfits : ((p._buffer ++ s).length : Int) ≤ p.max_frame_bytes) :
    feed decode p s = (lines decode p (partition (p._buffer ++ s)).1).map fun x =>
      (x.1, { x.2 with _buffer := (partition (p._buffer ++ s)).2 }) := by
  unfold feed check
  dsimp only
  rw [if_pos hfits]
  simp only [bind, Except.bind]
  cases lines decode p (partition (p._buffer ++ s)).1 <;> rfl

theorem feed_of_exceeds (h : ¬ ((p._buffer ++ s).length : Int) ≤ p.max_frame_bytes) :
    feed decode p s = .error .frame_exceeds_byte_limit := by
  unfold feed check
  dsimp only
  rw [if_neg h]
  rfl

-- What is left in the buffer after a chunk, with the chunks to come, fits where it did before.
theorem fits_left (hfits : ((p._buffer ++ (s ++ r)).length : Int) ≤ p.max_frame_bytes) :
    ((p._buffer ++ s).length : Int) ≤ p.max_frame_bytes := by
  simp only [List.length_append] at hfits ⊢
  omega

theorem fits_right (hfits : ((p._buffer ++ (s ++ r)).length : Int) ≤ p.max_frame_bytes)
    (hlimit : q.max_frame_bytes = p.max_frame_bytes) :
    (((partition (p._buffer ++ s)).2 ++ r).length : Int) ≤ q.max_frame_bytes := by
  have hs := congrArg List.length (partition_spec (p._buffer ++ s)).1
  simp only [List.length_append] at hfits hs ⊢
  omega

-- What a stream that fits comes to, however its rest is cut.
theorem parse_whole (hb : 10 ∉ p._buffer)
    (hfits : ((p._buffer ++ chunks.flatten).length : Int) ≤ p.max_frame_bytes)
    (h : lines decode p (partition (p._buffer ++ chunks.flatten)).1 = .ok (frames, q)) :
    parse decode p chunks =
      (frames, finish { q with _buffer := (partition (p._buffer ++ chunks.flatten)).2 }) := by
  induction chunks generalizing p q frames with
  | nil            =>
    rw [List.flatten_nil, List.append_nil] at h ⊢
    rw [partition_of_not_mem hb] at h ⊢
    cases h
    rfl
  | cons c chunks ih =>
    rw [List.flatten_cons] at hfits h ⊢
    rw [← List.append_assoc, partition_append, lines_append_ok_iff] at h
    obtain ⟨f, p', f', hc, hcs, rfl⟩ := h
    have hlines : lines decode { p' with _buffer := (partition (p._buffer ++ c)).2 }
        (partition ((partition (p._buffer ++ c)).2 ++ chunks.flatten)).1 =
          .ok (f', { q with _buffer := (partition (p._buffer ++ c)).2 }) := by
      rw [lines_buffer, hcs]
      rfl
    have hparse := ih (p := { p' with _buffer := (partition (p._buffer ++ c)).2 })
      (partition_spec _).2.2 (fits_right hfits (lines_limits hc).1) hlines
    unfold parse
    rw [feed_of_fits (fits_left hfits), hc]
    dsimp only [Except.map]
    rw [hparse, ← List.append_assoc, partition_append (p._buffer ++ c)]

-- What a stream that fits comes to where a line before its first frame is an error.
theorem parse_early {after : List Bytes} (hb : 10 ∉ p._buffer)
    (hfits : ((p._buffer ++ chunks.flatten).length : Int) ≤ p.max_frame_bytes)
    (hp : (partition (p._buffer ++ chunks.flatten)).1 = before ++ l :: after)
    (hq : lines decode p before = .ok ([], q)) (hl : line decode q l = .error e) :
    parse decode p chunks = ([], .error e) := by
  induction chunks generalizing p q before with
  | nil            =>
    rw [List.flatten_nil, List.append_nil, partition_of_not_mem hb] at hp
    cases before <;> cases hp
  | cons c chunks ih =>
    rw [List.flatten_cons] at hfits hp
    rw [← List.append_assoc, partition_append] at hp
    unfold parse
    rw [feed_of_fits (fits_left hfits)]
    by_cases hprefix : ∃ rest, before = (partition (p._buffer ++ c)).1 ++ rest
    case pos =>
      -- The chunk ends before the error.
      obtain ⟨rest, rfl⟩ := hprefix
      rw [List.append_assoc, List.append_cancel_left_eq] at hp
      obtain ⟨f, p', f', hc, hcs, hf⟩ := lines_append_ok_iff.mp hq
      obtain ⟨rfl, rfl⟩ := List.append_eq_nil_iff.mp hf.symm
      have hq' : lines decode { p' with _buffer := (partition (p._buffer ++ c)).2 } rest =
          .ok ([], { q with _buffer := (partition (p._buffer ++ c)).2 }) := by
        rw [lines_buffer, hcs]
        rfl
      have hl' : line decode { q with _buffer := (partition (p._buffer ++ c)).2 } l = .error e := by
        rw [line_buffer, hl]
        rfl
      have hparse := ih (p := { p' with _buffer := (partition (p._buffer ++ c)).2 })
        (partition_spec _).2.2 (fits_right hfits (lines_limits hc).1) hp hq' hl'
      rw [hc]
      dsimp only [Except.map]
      rw [hparse]
      rfl
    case neg =>
      rcases List.append_eq_append_iff.mp hp with ⟨rest, hr, -⟩ | ⟨rest, hr, hr'⟩
      case inl => exact absurd ⟨rest, hr⟩ hprefix
      case inr =>
        cases rest with
        | nil          => exact absurd ⟨[], by simp [hr]⟩ hprefix
        | cons l' rest =>
          cases hr'
          rw [hr, lines_error hq hl]
          rfl

theorem line_cancel {u v : Bytes} (hl : 10 ∉ l) (hr : 10 ∉ r) (h : l ++ 10 :: u = r ++ 10 :: v) :
    l = r ∧ u = v := by
  have hp := congrArg (fun b => (partition b).1.head?) h
  simp only [partition_line hl, partition_line hr, List.head?_cons, Option.some.injEq] at hp
  subst hp
  exact ⟨rfl, List.cons_inj_right 10 |>.mp <| List.append_cancel_left h⟩

-- The lines that are read before a line that is over the limit.
theorem joined_prefix {n : ℕ} (hls : ∀ l ∈ ls, 10 ∉ l) (hn : ∀ l ∈ before, 10 ∉ l)
    (h : joined ls ++ s = joined before ++ rest) (hlength : (joined ls).length ≤ n)
    (hline : 10 ∉ rest.take n) : ∃ after, before = ls ++ after ∧ s = joined after ++ rest := by
  induction ls generalizing before with
  | nil          => exact ⟨before, rfl, h⟩
  | cons l ls ih =>
    rw [joined_cons, List.append_assoc, List.cons_append] at h
    rw [joined_cons, List.length_append, List.length_cons] at hlength
    cases before with
    | nil              =>
      have hmem : 10 ∈ (l ++ 10 :: (joined ls ++ s)).take n := by
        rw [List.mem_take_iff_getElem]
        refine ⟨l.length, ?_, by simp⟩
        simp only [List.length_append, List.length_cons]
        omega
      rw [h] at hmem
      exact absurd hmem hline
    | cons l' before   =>
      rw [joined_cons, List.append_assoc, List.cons_append] at h
      obtain ⟨rfl, htail⟩ := line_cancel (hls l List.mem_cons_self) (hn l' List.mem_cons_self) h
      obtain ⟨after, rfl, hs⟩ := ih (fun l hl => hls l (List.mem_cons_of_mem _ hl))
        (fun l hl => hn l (List.mem_cons_of_mem _ hl)) htail (by omega)
      exact ⟨after, rfl, hs⟩

-- What a stream comes to where a line before its first frame is over the limit.
theorem parse_long (hb : (p._buffer.length : Int) ≤ p.max_frame_bytes.toNat)
    (hp : p._buffer ++ chunks.flatten = joined before ++ rest) (hn : ∀ l ∈ before, 10 ∉ l)
    (hq : lines decode p before = .ok ([], q)) (hlong : p.max_frame_bytes.toNat < rest.length)
    (hline : 10 ∉ rest.take p.max_frame_bytes.toNat) :
    parse decode p chunks = ([], .error .frame_exceeds_byte_limit) := by
  induction chunks generalizing p q before with
  | nil            =>
    have hlength := congrArg List.length hp
    simp only [List.flatten_nil, List.append_nil, List.length_append] at hlength
    omega
  | cons c chunks ih =>
    unfold parse
    by_cases hfits : ((p._buffer ++ c).length : Int) ≤ p.max_frame_bytes
    case neg => rw [feed_of_exceeds hfits]
    case pos =>
      obtain ⟨hsplit, hls, hr⟩ := partition_spec (p._buffer ++ c)
      have hlength : (p._buffer ++ c).length = (joined (partition (p._buffer ++ c)).1).length +
          (partition (p._buffer ++ c)).2.length :=
        (congrArg List.length hsplit).trans List.length_append
      rw [List.flatten_cons, ← List.append_assoc, hsplit, List.append_assoc] at hp
      obtain ⟨after, rfl, hs⟩ := joined_prefix hls hn hp (by omega) hline
      obtain ⟨f, p', f', hc, hcs, hf⟩ := lines_append_ok_iff.mp hq
      obtain ⟨rfl, rfl⟩ := List.append_eq_nil_iff.mp hf.symm
      have hlimit := (lines_limits hc).1
      have hq' : lines decode { p' with _buffer := (partition (p._buffer ++ c)).2 } after =
          .ok ([], { q with _buffer := (partition (p._buffer ++ c)).2 }) := by
        rw [lines_buffer, hcs]
        rfl
      have hparse := ih (p := { p' with _buffer := (partition (p._buffer ++ c)).2 }) (by dsimp only; omega) hs
        (fun l hl => hn l (List.mem_append_right _ hl)) hq' (by rwa [hlimit]) (by rwa [hlimit])
      rw [feed_of_fits hfits, hc]
      dsimp only [Except.map]
      rw [hparse]
      rfl

-- Whether a field is pending.
def pending (p : SSEParser) : Bool :=
  !p._fields.isEmpty

-- What one line does, by what it is.
inductive Does (decode : Bytes → Option String) (p : SSEParser) (l : Bytes) : Prop
  | idle (kind : kind decode l = .blank) (h : p.pending = false) (line : line decode p l = .ok ([], p))
  | ends (f : StreamFrame) (kind : kind decode l = .blank) (h : p.pending = true)
    (room : p._frames + 1 ≤ p.max_frames)
    (line : line decode p l = .ok ([f], { p with _frames := p._frames + 1, _fields := [] }))
  | full (kind : kind decode l = .blank) (h : p.pending = true) (room : ¬ p._frames + 1 ≤ p.max_frames)
    (line : line decode p l = .error .frame_count_exceeded)
  | comment (kind : kind decode l = .comment) (line : line decode p l = .ok ([], p))
  | field (kv : String × String) (kind : kind decode l = .field)
    (line : line decode p l = .ok ([], { p with _fields := p._fields ++ [kv] }))
  | bad (e : StreamProtocolError) (kind : kind decode l = .bad) (h : e ≠ .frame_exceeds_byte_limit)
    (line : line decode p l = .error e)

theorem field_error (h : field decode l = .error e) : e ≠ .frame_exceeds_byte_limit := by
  unfold field at h
  split at h
  case h_1 =>
    cases h
    decide
  case h_2 =>
    unfold check at h
    split at h <;> cases h
    decide

theorem does (decode : Bytes → Option String) (p : SSEParser) (l : Bytes) : Does decode p l := by
  cases hl : rstrip l with
  | nil         =>
    have hk : kind decode l = .blank := by simp [kind, hl]
    cases hp : p.pending with
    | false =>
      have hf : p._fields = [] := by simpa [pending] using hp
      exact .idle hk hp (by simp [line, hl, hf])
    | true  =>
      have hf : p._fields ≠ [] := by simpa [pending] using hp
      by_cases hroom : p._frames + 1 ≤ p.max_frames
      case pos => exact .ends _ hk hp hroom (by simp [line, hl, hf, _finish, check, hroom]; rfl)
      case neg => exact .full hk hp hroom (by simp [line, hl, hf, _finish, check, hroom])
  | cons b rest =>
    by_cases hb : b = 58
    case pos => exact .comment (by simp [kind, hl, hb]) (by simp [line, hl, hb])
    case neg =>
      cases hf : field decode (b :: rest) with
      | ok kv   => exact .field kv (by simp [kind, hl, hb, hf]) (by simp [line, hl, hb, hf])
      | error e => exact .bad e (by simp [kind, hl, hb, hf]) (field_error hf) (by simp [line, hl, hb, hf])

-- The frames that lines yield are the ones they end.
theorem lines_ok (h : lines decode p ls = .ok (frames, q)) (hls : List Bytes) :
    (∀ l ∈ ls, kind decode l ≠ .bad) ∧ q._frames = p._frames + frames.length ∧
      (frames ≠ [] → (q._frames : Int) ≤ p.max_frames) ∧
        ended decode p.pending (ls ++ hls) = frames.length + ended decode q.pending hls := by
  induction ls generalizing p frames with
  | nil          =>
    cases h
    simp
  | cons l ls ih =>
    obtain ⟨⟨f, p'⟩, hl, h⟩ := bind_eq_ok_iff.mp h
    obtain ⟨⟨f', q'⟩, hrest, h⟩ := bind_eq_ok_iff.mp h
    cases h
    obtain ⟨hgood, hframes, hroom, hended⟩ := ih hrest
    have hgood' : kind decode l ≠ .bad → ∀ l' ∈ l :: ls, kind decode l' ≠ .bad := by
      intro hk l' hl'
      rcases List.mem_cons.mp hl' with rfl | hl'
      · exact hk
      · exact hgood l' hl'
    rw [List.cons_append, ended]
    cases does decode p l with
    | idle hk hp hline       =>
      cases hline.symm.trans hl
      refine ⟨hgood' (by simp [hk]), hframes, hroom, ?_⟩
      rw [hk, hp] at *
      simpa using hended
    | ends f hk hp hr hline  =>
      cases hline.symm.trans hl
      dsimp only at hframes hroom
      refine ⟨hgood' (by simp [hk]), ?_, fun _ => ?_, ?_⟩
      · simp only [List.length_append, List.length_singleton]
        omega
      · by_cases hf : f' = []
        case pos =>
          subst hf
          simpa [hframes] using hr
        case neg => exact hroom hf
      · have hpending : pending { p with _frames := p._frames + 1, _fields := [] } = false := rfl
        rw [hpending] at hended
        rw [hk, hp, hended]
        simp only [List.length_append, List.length_singleton, if_pos]
        omega
    | full hk hp hr hline    => cases hline.symm.trans hl
    | comment hk hline       =>
      cases hline.symm.trans hl
      refine ⟨hgood' (by simp [hk]), hframes, hroom, ?_⟩
      rw [hk]
      simpa using hended
    | field kv hk hline      =>
      cases hline.symm.trans hl
      refine ⟨hgood' (by simp [hk]), hframes, hroom, ?_⟩
      have hpending : pending { p with _fields := p._fields ++ [kv] } = true := by simp [pending]
      rw [hpending] at hended
      rw [hk]
      exact hended
    | bad e hk he hline      => cases hline.symm.trans hl

-- The first line that is an error.
theorem lines_fail (h : lines decode p ls = .error e) :
    ∃ before l after frames q, ls = before ++ l :: after ∧ lines decode p before = .ok (frames, q) ∧
      line decode q l = .error e := by
  induction ls generalizing p with
  | nil          => cases h
  | cons l ls ih =>
    cases hl : line decode p l with
    | error e' =>
      unfold lines at h
      rw [hl] at h
      cases h
      exact ⟨[], l, ls, [], p, rfl, rfl, hl⟩
    | ok x     =>
      have hls : lines decode x.2 ls = .error e := by
        unfold lines at h
        rw [hl] at h
        cases hls : lines decode x.2 ls with
        | error e' => simpa [hls, bind, Except.bind] using h
        | ok y     => simp [hls, bind, Except.bind, pure, Except.pure] at h
      obtain ⟨before, l', after, frames, q, rfl, hb, he⟩ := ih hls
      refine ⟨l :: before, l', after, x.1 ++ frames, q, rfl, ?_, he⟩
      simp [lines, hl, hb, bind, Except.bind, pure, Except.pure]

theorem line_error_iff : (∃ e, line decode q l = .error e) ↔
    kind decode l = .bad ∨ kind decode l = .blank ∧ q.pending = true ∧ ¬ q._frames + 1 ≤ q.max_frames := by
  cases does decode q l <;> simp_all

theorem line_error_ne (h : line decode q l = .error e) : e ≠ .frame_exceeds_byte_limit := by
  rintro rfl
  cases does decode q l <;> simp_all

-- A parser that has read nothing yet.
def fresh (max_frame_bytes max_frames : Int) : SSEParser :=
  { max_frame_bytes, max_frames }

variable {max_frame_bytes max_frames : Int}

theorem lines_fresh (hgood : ∀ l ∈ ls, kind decode l ≠ .bad)
    (hcount : ended decode false ls ≤ max_frames.toNat) :
    ∃ frames q, lines decode (fresh max_frame_bytes max_frames) ls = .ok (frames, q) := by
  cases h : lines decode (fresh max_frame_bytes max_frames) ls with
  | ok x    => exact ⟨x.1, x.2, rfl⟩
  | error e =>
    obtain ⟨before, l, after, frames, q, rfl, hb, hl⟩ := lines_fail h
    obtain ⟨-, hframes, -, hended⟩ := lines_ok hb (l :: after)
    obtain ⟨-, hlimit, -⟩ := lines_limits hb
    rcases line_error_iff.mp ⟨e, hl⟩ with hk | ⟨hk, hp, hroom⟩
    · exact absurd hk (hgood l (by simp))
    · rw [hp, ended, hk] at hended
      rw [hlimit] at hroom
      simp only [fresh, pending, List.isEmpty_nil, Bool.not_true, if_pos] at hended hframes hroom
      omega

theorem quiet_iff : Quiet decode before ↔
    ∃ q, lines decode (fresh max_frame_bytes max_frames) before = .ok ([], q) := by
  constructor
  · rintro ⟨hgood, hsilent⟩
    have hcount : ended decode false before ≤ max_frames.toNat := by omega
    obtain ⟨frames, q, h⟩ : ∃ frames q, lines decode (fresh max_frame_bytes max_frames) before =
      .ok (frames, q) := lines_fresh hgood hcount
    obtain ⟨-, -, -, hended⟩ := lines_ok h []
    have hframes : frames = [] := by
      simpa [fresh, pending, ended, hsilent] using hended.symm
    exact ⟨q, hframes ▸ h⟩
  · rintro ⟨q, h⟩
    obtain ⟨hgood, -, -, hended⟩ := lines_ok h []
    exact ⟨hgood, by simpa [fresh, pending, ended] using hended⟩

-- Where a line is an error after lines that are none.
theorem stops_iff {before : List Bytes} {l : Bytes} {q : SSEParser}
    (h : lines decode (fresh max_frame_bytes max_frames) before = .ok ([], q)) :
    (∃ e, line decode q l = .error e) ↔
      kind decode l = .bad ∨ max_frames ≤ 0 ∧ ended decode false (before ++ [l]) ≠ 0 := by
  obtain ⟨-, hframes, -, hended⟩ := lines_ok h [l]
  obtain ⟨-, hlimit, -⟩ := lines_limits h
  have hq : q._frames = 0 := by simpa [fresh] using hframes
  have hended : ended decode false (before ++ [l]) = ended decode q.pending [l] := by
    simpa [fresh, pending] using hended
  rw [line_error_iff, hended, hlimit, hq]
  refine or_congr_right ?_
  have hroom : ¬ ((0 : ℕ) : Int) + 1 ≤ (fresh max_frame_bytes max_frames).max_frames ↔ max_frames ≤ 0 := by
    simp only [fresh]
    omega
  rw [hroom]
  cases hk : kind decode l <;> cases hp : q.pending <;> simp [ended, hk]

-- A parse whose stream is over the limit fails where it does not reach a line break in time.
theorem long_of_parse {p : SSEParser} (hlimit : 0 ≤ p.max_frame_bytes) (hbuffer : p._buffer = [])
    (hls : ∀ l ∈ ls, 10 ∉ l) (hr : 10 ∉ r)
    (h : parse decode p (ls.map (· ++ [10]) ++ [r]) = ([], .error .frame_exceeds_byte_limit)) :
    ∃ before rest q, joined ls ++ r = joined before ++ rest ∧ (∀ l ∈ before, 10 ∉ l) ∧
      lines decode p before = .ok ([], q) ∧ p.max_frame_bytes.toNat < rest.length ∧
        10 ∉ rest.take p.max_frame_bytes.toNat := by
  induction ls generalizing p with
  | nil          =>
    by_cases hfits : ((p._buffer ++ r).length : Int) ≤ p.max_frame_bytes
    case pos =>
      have hchunks : ((p._buffer ++ [r].flatten).length : Int) ≤ p.max_frame_bytes := by simpa using hfits
      have hlines : lines decode p (partition (p._buffer ++ [r].flatten)).1 = .ok ([], p) := by
        simp [hbuffer, partition_of_not_mem hr, lines]
      rw [List.map_nil, List.nil_append,
        parse_whole (by simp [hbuffer]) hchunks hlines, Prod.mk.injEq] at h
      unfold finish check at h
      split at h <;> simp at h
    case neg =>
      rw [hbuffer, List.nil_append] at hfits
      exact ⟨[], r, p, rfl, nofun, rfl, by omega, fun hm => hr (List.mem_of_mem_take hm)⟩
  | cons l ls ih =>
    have hl : 10 ∉ l := hls l List.mem_cons_self
    rw [List.map_cons, List.cons_append] at h
    unfold parse at h
    by_cases hfits : ((p._buffer ++ (l ++ [10])).length : Int) ≤ p.max_frame_bytes
    case neg =>
      rw [hbuffer, List.nil_append, List.length_append, List.length_singleton] at hfits
      have hrest : joined (l :: ls) ++ r = l ++ 10 :: (joined ls ++ r) := by
        rw [joined_cons, List.append_assoc, List.cons_append]
      refine ⟨[], joined (l :: ls) ++ r, p, rfl, nofun, rfl, ?_, ?_⟩
      · rw [hrest, List.length_append, List.length_cons]
        omega
      · rw [hrest, List.take_append_of_le_length (by omega)]
        exact fun hm => hl (List.mem_of_mem_take hm)
    case pos =>
      have hpartition : partition (p._buffer ++ (l ++ [10])) = ([l], []) := by
        rw [hbuffer, List.nil_append, partition_line hl]
        rfl
      rw [feed_of_fits hfits, hpartition] at h
      cases hline : line decode p l with
      | error e =>
        have hlines : lines decode p ([] ++ [l]) = .error e := lines_error rfl hline
        rw [List.nil_append] at hlines
        rw [hlines] at h
        simp only [Except.map, Prod.mk.injEq, Except.error.injEq, true_and] at h
        exact absurd h (line_error_ne hline)
      | ok x    =>
        have hlines : lines decode p [l] = .ok x := by
          simp [lines, hline, bind, Except.bind, pure, Except.pure]
        obtain ⟨hlimit', -, hbuffer'⟩ := line_limits (q := x.2) hline
        rw [hlines] at h
        simp only [Except.map, Prod.mk.injEq, List.append_eq_nil_iff] at h
        obtain ⟨⟨hx, hframes⟩, houtcome⟩ := h
        have hsame : ({ x.2 with _buffer := [] } : SSEParser) = x.2 := by
          rw [← hbuffer, ← hbuffer']
        rw [hsame] at hframes houtcome
        obtain ⟨before, rest, q, he, hn, hq, hlong, htake⟩ := ih (p := x.2) (by rwa [hlimit'])
          (hbuffer'.trans hbuffer) (fun l' hl' => hls l' (List.mem_cons_of_mem l hl'))
          (Prod.ext hframes houtcome)
        rw [hlimit'] at hlong htake
        refine ⟨l :: before, rest, q, ?_, ?_, ?_, hlong, htake⟩
        · rw [joined_cons, List.append_assoc, List.cons_append, he, joined_cons, List.append_assoc,
            List.cons_append]
        · simpa [hl] using hn
        · simp [lines, hline, hq, hx, bind, Except.bind, pure, Except.pure]

theorem Uncut.parse_eq (h : Uncut decode max_frame_bytes max_frames stream) :
    ∃ x, ∀ chunks, chunks.flatten = stream →
      parse decode (fresh max_frame_bytes max_frames) chunks = x := by
  cases h with
  | whole fits good count                  =>
    obtain ⟨frames, q, hq⟩ : ∃ frames q, lines decode (fresh max_frame_bytes max_frames)
      (partition stream).1 = .ok (frames, q) := lines_fresh good count
    refine ⟨(frames, finish { q with _buffer := (partition stream).2 }), fun chunks hc => ?_⟩
    subst hc
    exact parse_whole List.not_mem_nil fits hq
  | early fits hlines quiet stops          =>
    obtain ⟨q, hq⟩ : ∃ q, lines decode (fresh max_frame_bytes max_frames) _ = .ok ([], q) :=
      quiet_iff.mp quiet
    obtain ⟨e, he⟩ := (stops_iff hq).mpr stops
    refine ⟨([], .error e), fun chunks hc => ?_⟩
    subst hc
    exact parse_early List.not_mem_nil fits hlines hq he
  | long split hlines quiet excess hline   =>
    obtain ⟨q, hq⟩ : ∃ q, lines decode (fresh max_frame_bytes max_frames) _ = .ok ([], q) :=
      quiet_iff.mp quiet
    refine ⟨([], .error .frame_exceeds_byte_limit), fun chunks hc => ?_⟩
    subst hc
    exact parse_long (by simp [fresh]) split hlines hq excess hline

-- One chunk, or two that are cut after the lines before the first error.
theorem Uncut.of_fits (fits : (stream.length : Int) ≤ max_frame_bytes)
    (h : ∀ chunks chunks', chunks.flatten = stream → chunks'.flatten = stream →
      parse decode (fresh max_frame_bytes max_frames) chunks =
        parse decode (fresh max_frame_bytes max_frames) chunks') :
    Uncut decode max_frame_bytes max_frames stream := by
  cases hlines : lines decode (fresh max_frame_bytes max_frames) (partition stream).1 with
  | ok x    =>
    obtain ⟨hgood, hframes, hroom, hended⟩ := lines_ok (q := x.2) hlines []
    refine .whole fits hgood ?_
    simp only [fresh, pending, List.isEmpty_nil, Bool.not_true, List.append_nil, ended,
      Nat.add_zero] at hframes hroom hended
    by_cases hx : x.1 = []
    case pos => simp [hended, hx]
    case neg =>
      have hroom := hroom hx
      omega
  | error e =>
    obtain ⟨before, l, after, frames, q, hp, hb, he⟩ := lines_fail hlines
    by_cases hframes : frames = []
    case pos =>
      subst hframes
      obtain ⟨-, hls, -⟩ := partition_spec stream
      exact .early fits hp (quiet_iff.mpr ⟨q, hb⟩) <| (stops_iff hb).mp ⟨e, he⟩
    case neg =>
      obtain ⟨hsplit, hls, -⟩ := partition_spec stream
      have hcut : [joined before, joined (l :: after) ++ (partition stream).2].flatten = stream := by
        conv_rhs => rw [hsplit, hp, joined_append]
        simp
      have hone : parse decode (fresh max_frame_bytes max_frames) [stream] = ([], .error e) := by
        unfold parse
        rw [feed_of_fits (by simpa [fresh] using fits)]
        simp only [fresh, List.nil_append] at hlines ⊢
        rw [hlines]
        rfl
      have hfits : (((fresh max_frame_bytes max_frames)._buffer ++ joined before).length : Int) ≤
          (fresh max_frame_bytes max_frames).max_frame_bytes := by
        have hlength := congrArg List.length hcut
        simp only [List.flatten_cons, List.length_append] at hlength
        simp only [fresh, List.nil_append]
        omega
      have hpartition : partition (joined before) = (before, []) := by
        have hbefore : ∀ l ∈ before, 10 ∉ l := fun l hl => hls l (by simp [hp, hl])
        simpa using partition_joined hbefore (r := []) List.not_mem_nil
      have htwo := h [stream] _ (by simp) hcut
      rw [hone] at htwo
      unfold parse at htwo
      rw [feed_of_fits hfits] at htwo
      simp only [fresh, List.nil_append, hpartition] at htwo hb
      rw [hb] at htwo
      simp only [Except.map, Prod.mk.injEq] at htwo
      exact absurd (List.append_eq_nil_iff.mp htwo.left.symm).left hframes

-- One chunk, or one for each line.
theorem Uncut.of_exceeds (hover : ¬ (stream.length : Int) ≤ max_frame_bytes)
    (h : ∀ chunks chunks', chunks.flatten = stream → chunks'.flatten = stream →
      parse decode (fresh max_frame_bytes max_frames) chunks =
        parse decode (fresh max_frame_bytes max_frames) chunks') :
    Uncut decode max_frame_bytes max_frames stream := by
  have hone : parse decode (fresh max_frame_bytes max_frames) [stream] =
      ([], .error .frame_exceeds_byte_limit) := by
    unfold parse
    rw [feed_of_exceeds (by simpa [fresh] using hover)]
  by_cases hlimit : 0 ≤ max_frame_bytes
  case pos =>
    obtain ⟨ls, r, rfl, hls, hr⟩ := exists_joined stream
    have hlines := h (ls.map (· ++ [10]) ++ [r]) [joined ls ++ r]
      (by simp [joined, List.flatMap_def]) (by simp)
    obtain ⟨before, rest, q, hsplit, hn, hq, hlong, htake⟩ :=
      long_of_parse hlimit rfl hls hr (hlines.trans hone)
    exact .long hsplit hn (quiet_iff.mpr ⟨q, hq⟩) hlong htake
  case neg =>
    have hzero : max_frame_bytes.toNat = 0 := by omega
    cases stream with
    | nil      =>
      have hnone := h [] [[]] rfl rfl
      rw [hone] at hnone
      simp [parse, finish, check, fresh] at hnone
    | cons b s =>
      have hsplit : b :: s = joined [] ++ b :: s := rfl
      exact .long hsplit nofun ⟨nofun, rfl⟩ (by simp [hzero]) (by simp [hzero])

-- A stream is parsed the same however it is cut if and only if it is one of these.
theorem parse_eq_iff : (∀ chunks chunks', chunks.flatten = stream → chunks'.flatten = stream →
      parse decode (fresh max_frame_bytes max_frames) chunks =
        parse decode (fresh max_frame_bytes max_frames) chunks') ↔
    Uncut decode max_frame_bytes max_frames stream := by
  constructor
  · intro h
    by_cases hfits : (stream.length : Int) ≤ max_frame_bytes
    case pos => exact .of_fits hfits h
    case neg => exact .of_exceeds hfits h
  · intro h chunks chunks' hc hc'
    obtain ⟨x, hx⟩ := h.parse_eq
    rw [hx chunks hc, hx chunks' hc']

-- A decoder for bytes that are ASCII.
def ascii (bytes : Bytes) : Option String :=
  if bytes.all (· < 128) then some (String.ofList (bytes.map fun b => Char.ofNat b.toNat)) else none

def event : Bytes :=
  [100, 97, 116, 97, 58, 32, 120, 10, 10]

-- Two events that arrive together are over a limit that neither of them reaches.
theorem parse_ne : parse ascii (fresh 16 10000) [event ++ event] ≠
    parse ascii (fresh 16 10000) [event, event] := by
  decide

end SSEParser

end Streaming
