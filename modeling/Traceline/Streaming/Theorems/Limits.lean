import Traceline.Streaming.Theorems.Chunking

-- For which streams the byte limit bounds the frames, what is retained, and what is rejected.
namespace Streaming

open Except (bind_eq_ok_iff)

abbrev Fields := List (String × String)

-- `line.decode("utf-8")`
def utf8 (line : Bytes) : Option String :=
  String.fromUTF8? ⟨⟨line⟩⟩

theorem utf8_size {line : Bytes} {text : String} (h : utf8 line = some text) :
    text.utf8ByteSize = line.length := by
  unfold utf8 String.fromUTF8? at h
  split at h
  case isTrue =>
    cases h
    rfl
  case isFalse => cases h

-- The bytes of fields.
def size (fields : Fields) : ℕ :=
  (fields.map fun kv => kv.1.utf8ByteSize + kv.2.utf8ByteSize).sum

theorem size_append (fields fields' : Fields) : size (fields ++ fields') = size fields + size fields' := by
  simp [size]

-- The frame that fields make.
def frame (fields : Fields) : StreamFrame where
  event := (fields.lookup "event").getD "message"
  data  := String.intercalate "\n" ((fields.filter (·.1 = "data")).map (·.2))
  id    := fields.lookup "id"

namespace SSEParser

-- The fields that a line adds to the frame under way.
def adds (l : Bytes) : Fields :=
  match rstrip l with
  | []        => []
  | b :: rest => if b = 58 then [] else (field utf8 (b :: rest)).toOption.toList

-- The fields of the frames that lines end, and of the frame they leave unfinished.
def sections (pending : Fields) : List Bytes → List Fields × Fields
  | []        => ([], pending)
  | l :: rest =>
    if rstrip l = [] then
      if pending = [] then sections [] rest
      else (pending :: (sections [] rest).1, (sections [] rest).2)
    else sections (pending ++ adds l) rest

theorem sections_append (fields : Fields) (ls ls' : List Bytes) :
    sections fields (ls ++ ls') =
      ((sections fields ls).1 ++ (sections (sections fields ls).2 ls').1,
        (sections (sections fields ls).2 ls').2) := by
  induction ls generalizing fields with
  | nil          => rfl
  | cons l ls ih =>
    rw [List.cons_append, sections, sections]
    split
    case isTrue =>
      split
      case isTrue  => exact ih []
      case isFalse => rw [ih []]; rfl
    case isFalse => exact ih _

theorem utf8ByteSize_span {text : String} {k v : List Char}
    (h : text.toList = k ++ ':' :: v) :
    (String.ofList k).utf8ByteSize + (String.ofList v).utf8ByteSize ≤ text.utf8ByteSize := by
  have ht : text = String.ofList k ++ (String.ofList [':'] ++ String.ofList v) := by
    rw [← String.ofList_append, ← String.ofList_append]
    exact (String.ofList_toList).symm.trans <| congrArg String.ofList h
  rw [ht, String.utf8ByteSize_append, String.utf8ByteSize_append]
  omega

theorem split_size {text key value : String} (h : split text = some (key, value)) :
    key.utf8ByteSize + value.utf8ByteSize ≤ text.utf8ByteSize := by
  unfold split at h
  rw [List.span_eq_takeWhile_dropWhile] at h
  split at h
  case h_2             => cases h
  case h_1 k c v heq =>
    obtain ⟨hk, hv⟩ := Prod.mk.inj heq
    obtain ⟨rfl, rfl⟩ := Prod.mk.inj <| Option.some.inj h
    have hc : c = ':' := by
      have := List.head?_dropWhile_not (· ≠ ':') text.toList
      rw [hv] at this
      simpa using this
    refine utf8ByteSize_span ?_
    rw [← hc, ← hk, ← hv, List.takeWhile_append_dropWhile]

theorem field_value_size (value : String) : (field_value value).utf8ByteSize ≤ value.utf8ByteSize := by
  unfold field_value
  split
  case isFalse => exact le_rfl
  case isTrue  =>
    have hv : value = String.ofList (value.toList.take 1) ++ String.ofList (value.toList.drop 1) := by
      rw [← String.ofList_append, List.take_append_drop, String.ofList_toList]
    conv_rhs => rw [hv, String.utf8ByteSize_append]
    omega

-- What a line adds is no longer than the line.
theorem size_adds (l : Bytes) : size (adds l) ≤ l.length := by
  have hstrip : (rstrip l).length ≤ l.length := by
    unfold rstrip
    rw [List.length_reverse]
    exact (List.dropWhile_sublist _).length_le.trans_eq List.length_reverse
  unfold adds
  split
  case h_1          => exact Nat.zero_le _
  case h_2 b rest h =>
    split
    case isTrue  => exact Nat.zero_le _
    case isFalse =>
      cases hf : field utf8 (b :: rest) with
      | error e => exact Nat.zero_le _
      | ok kv   =>
        rw [h] at hstrip
        refine le_trans ?_ hstrip
        unfold field at hf
        split at hf
        case h_1                => cases hf
        case h_2 key value hsplit =>
          obtain ⟨_, -, hf⟩ := bind_eq_ok_iff.mp hf
          cases hf
          obtain ⟨text, ht, hs⟩ := Option.bind_eq_some_iff.mp hsplit
          rw [← utf8_size ht]
          have hkv := Nat.add_le_add_left (field_value_size value) key.utf8ByteSize
          simpa [size, Except.toOption] using hkv.trans <| split_size hs

-- The frame under way is never cut.
theorem size_le_head {fields g : Fields} {ls : List Bytes} {gs : List Fields}
    (h : (sections fields ls).1 = g :: gs) : size fields ≤ size g := by
  induction ls generalizing fields with
  | nil          => cases h
  | cons l ls ih =>
    rw [sections] at h
    split at h
    case isTrue =>
      split at h
      case isTrue hf => exact hf ▸ Nat.zero_le _
      case isFalse   =>
        obtain ⟨rfl, -⟩ := List.cons.inj h
        exact le_rfl
    case isFalse => exact le_trans (by rw [size_append]; omega) (ih h)

-- No byte of a line is in two frames.
theorem sections_size (fields : Fields) (ls : List Bytes) :
    ((sections fields ls).1.map size).sum + size (sections fields ls).2 ≤
      size fields + (joined ls).length := by
  induction ls generalizing fields with
  | nil          => simp [sections]
  | cons l ls ih =>
    rw [sections, joined_cons, List.length_append, List.length_cons]
    split
    case isTrue =>
      have hnil := ih []
      simp only [size, List.map_nil, List.sum_nil] at hnil
      split
      case isTrue  =>
        simp only [size] at hnil ⊢
        omega
      case isFalse =>
        simp only [size, List.map_cons, List.sum_cons] at hnil ⊢
        omega
    case isFalse =>
      have hadds := ih (fields ++ adds l)
      rw [size_append] at hadds
      have := size_adds l
      omega

theorem field_error_count {l : Bytes} {e : StreamProtocolError} (h : field utf8 l = .error e) :
    e ≠ .frame_count_exceeded := by
  unfold field at h
  split at h
  case h_1 =>
    cases h
    decide
  case h_2 =>
    unfold check at h
    split at h <;> cases h
    decide

-- There is room for the frames that lines end.
def Room (p : SSEParser) (ls : List Bytes) : Prop :=
  (sections p._fields ls).1 = [] ∨
    (p._frames + (sections p._fields ls).1.length : Int) ≤ p.max_frames

-- What lines come to.
inductive Reads (p : SSEParser) (ls : List Bytes) : Prop
  | taken (good : ∀ l ∈ ls, kind utf8 l ≠ .bad) (room : Room p ls)
    (lines : lines utf8 p ls = .ok ((sections p._fields ls).1.map frame,
      { p with
        _frames := p._frames + (sections p._fields ls).1.length,
        _fields := (sections p._fields ls).2 }))
  | refused (e : StreamProtocolError) (h : ¬((∀ l ∈ ls, kind utf8 l ≠ .bad) ∧ Room p ls))
    (size : e ≠ .frame_exceeds_byte_limit)
    (count : e = .frame_count_exceeded → ¬Room p ls)
    (lines : lines utf8 p ls = .error e)

-- One line that is no error, before others.
theorem Reads.cons {p : SSEParser} {l : Bytes} {ls : List Bytes} {gs : List Fields} {fields : Fields}
    (hk : kind utf8 l ≠ .bad)
    (hsections : sections p._fields (l :: ls) = (gs ++ (sections fields ls).1, (sections fields ls).2))
    (hroom : gs = [] ∨ (p._frames + gs.length : Int) ≤ p.max_frames)
    (hline : line utf8 p l =
      .ok (gs.map frame, { p with _frames := p._frames + gs.length, _fields := fields }))
    (h : Reads { p with _frames := p._frames + gs.length, _fields := fields } ls) :
    Reads p (l :: ls) := by
  have hiff : Room p (l :: ls) ↔ Room { p with _frames := p._frames + gs.length, _fields := fields } ls := by
    unfold Room
    rw [hsections, List.append_eq_nil_iff, List.length_append]
    dsimp only
    by_cases hgs : (sections fields ls).1 = []
    · simpa [hgs] using hroom
    · simp only [hgs, and_false, false_or]
      omega
  have hgood : (∀ l' ∈ l :: ls, kind utf8 l' ≠ .bad) ↔ ∀ l' ∈ ls, kind utf8 l' ≠ .bad := by
    rw [List.forall_mem_cons, and_iff_right hk]
  cases h with
  | taken good room hlines       =>
    refine .taken (hgood.mpr good) (hiff.mpr room) ?_
    rw [lines, hline, hsections]
    simp only [bind, Except.bind, hlines]
    simp [pure, Except.pure, Nat.add_assoc]
  | refused e h hs hcount hlines =>
    rw [← hiff, ← hgood] at h
    rw [← hiff] at hcount
    refine .refused e h hs hcount ?_
    rw [lines, hline]
    simp only [bind, Except.bind, hlines]

theorem reads (p : SSEParser) (ls : List Bytes) : Reads p ls := by
  induction ls generalizing p with
  | nil          => exact .taken (List.forall_mem_nil _) (.inl rfl) rfl
  | cons l ls ih =>
    cases hl : rstrip l with
    | nil         =>
      have hk : kind utf8 l = .blank := by simp [kind, hl]
      by_cases hf : p._fields = []
      case pos =>
        refine @Reads.cons p l ls [] p._fields (by simp [hk]) ?_ (.inl rfl) ?_ (ih _)
        · simp [sections, hl, hf]
        · unfold line
          rw [hl]
          exact if_pos hf
      case neg =>
        by_cases hroom : (p._frames + 1 : Int) ≤ p.max_frames
        case pos =>
          refine @Reads.cons p l ls [p._fields] [] (by simp [hk]) ?_ (.inr hroom) ?_ (ih _)
          · simp [sections, hl, hf]
          · simp [line, hl, hf, _finish, check, hroom]
            rfl
        case neg =>
          have hfull : ¬Room p (l :: ls) := by
            unfold Room
            simp only [sections, hl, hf, if_true, if_false, List.length_cons, reduceCtorEq, false_or]
            omega
          refine .refused .frame_count_exceeded (fun h => hfull h.right) (by decide)
            (fun _ => hfull) ?_
          simp [lines, line, hl, hf, _finish, check, hroom, bind, Except.bind]
    | cons b rest =>
      by_cases hb : b = 58
      case pos =>
        refine @Reads.cons p l ls [] p._fields (by simp [kind, hl, hb]) ?_ (.inl rfl) ?_ (ih _)
        · simp [sections, hl, adds, hb]
        · simp [line, hl, hb]
      case neg =>
        cases hf : field utf8 (b :: rest) with
        | ok kv   =>
          refine @Reads.cons p l ls [] (p._fields ++ [kv]) (by simp [kind, hl, hb, hf]) ?_ (.inl rfl)
            ?_ (ih _)
          · simp [sections, hl, adds, hb, hf, Except.toOption]
          · simp [line, hl, hb, hf]
        | error e =>
          have hbad : kind utf8 l = .bad := by simp [kind, hl, hb, hf]
          refine .refused e (fun h => h.left l (.head _) hbad) (field_error hf)
            (fun he => absurd he <| field_error_count hf) ?_
          simp [lines, line, hl, hb, hf, bind, Except.bind]

-- The bytes after the last line feed of a stream.
def tail (stream : Bytes) : Bytes :=
  (partition stream).2

-- The fields of the frames of a stream, and of the frame it leaves unfinished.
def groups (stream : Bytes) : List Fields :=
  (sections [] (partition stream).1).1

def unfinished (stream : Bytes) : Fields :=
  (sections [] (partition stream).1).2

section

variable (max_frame_bytes max_frames : Int)

-- The parser after a stream it took.
def after (stream : Bytes) : SSEParser where
  max_frame_bytes := max_frame_bytes
  max_frames      := max_frames
  _buffer         := tail stream
  _fields         := unfinished stream
  _frames         := (groups stream).length

-- The lines that a chunk completes.
def completed (stream chunk : Bytes) : List Bytes :=
  (partition (tail stream ++ chunk)).1

-- A chunk that the parser takes after a stream: it fits with the line it continues, it completes no
-- malformed line, and not too many frames.
structure Takes (stream chunk : Bytes) : Prop where
  fits : ((tail stream).length + chunk.length : Int) ≤ max_frame_bytes
  good : ∀ l ∈ completed stream chunk, kind utf8 l ≠ .bad
  room : Room (after max_frame_bytes max_frames stream) (completed stream chunk)

def Admitted (stream : Bytes) : List Bytes → Prop
  | []              => True
  | chunk :: chunks => Takes max_frame_bytes max_frames stream chunk ∧ Admitted (stream ++ chunk) chunks

end

-- The frames that chunks yield when they are fed one after the other, and the parser after them.
def feeds (p : SSEParser) : List Bytes → Except StreamProtocolError (List StreamFrame × SSEParser)
  | []              => .ok ([], p)
  | chunk :: chunks => do
    let (frames, p)  ← p.feed utf8 chunk
    let (frames', p) ← feeds p chunks
    return (frames ++ frames', p)

variable {max_frame_bytes max_frames : Int} {stream chunk : Bytes} {chunks chunks' : List Bytes}

theorem sections_append_chunk (stream chunk : Bytes) :
    sections [] (partition (stream ++ chunk)).1 =
      (groups stream ++ (sections (unfinished stream) (completed stream chunk)).1,
        (sections (unfinished stream) (completed stream chunk)).2) := by
  rw [partition_append, sections_append]
  rfl

theorem tail_append : tail (stream ++ chunk) = (partition (tail stream ++ chunk)).2 := by
  rw [tail, partition_append]
  rfl

theorem groups_append :
    groups (stream ++ chunk) =
      groups stream ++ (sections (unfinished stream) (completed stream chunk)).1 := by
  rw [groups, sections_append_chunk]

theorem unfinished_append :
    unfinished (stream ++ chunk) = (sections (unfinished stream) (completed stream chunk)).2 := by
  rw [unfinished, sections_append_chunk]

-- What a chunk comes to after a stream that was taken.
inductive Feeds (max_frame_bytes max_frames : Int) (stream chunk : Bytes) : Prop
  | taken (h : Takes max_frame_bytes max_frames stream chunk)
    (feed : feed utf8 (after max_frame_bytes max_frames stream) chunk =
      .ok ((sections (unfinished stream) (completed stream chunk)).1.map frame,
        after max_frame_bytes max_frames (stream ++ chunk)))
  | long (h : max_frame_bytes < (tail stream).length + chunk.length)
    (feed : feed utf8 (after max_frame_bytes max_frames stream) chunk = .error .frame_exceeds_byte_limit)
  | refused (e : StreamProtocolError) (h : ¬Takes max_frame_bytes max_frames stream chunk)
    (fits : ((tail stream).length + chunk.length : Int) ≤ max_frame_bytes)
    (size : e ≠ .frame_exceeds_byte_limit)
    (count : e = .frame_count_exceeded → max_frames < (groups (stream ++ chunk)).length)
    (feed : feed utf8 (after max_frame_bytes max_frames stream) chunk = .error e)

theorem feeds_of (max_frame_bytes max_frames : Int) (stream chunk : Bytes) :
    Feeds max_frame_bytes max_frames stream chunk := by
  by_cases hfits : ((tail stream).length + chunk.length : Int) ≤ max_frame_bytes
  case neg =>
    refine .long (by omega) <| feed_of_exceeds ?_
    rw [List.length_append]
    exact fun h => hfits (by exact_mod_cast h)
  case pos =>
    have hfeed := @feed_of_fits utf8 (after max_frame_bytes max_frames stream) chunk
      (by rw [List.length_append]; exact_mod_cast hfits)
    cases reads (after max_frame_bytes max_frames stream) (completed stream chunk) with
    | taken good room hlines         =>
      refine .taken ⟨hfits, good, room⟩ <| hfeed.trans ?_
      refine (congrArg (Except.map _) hlines).trans ?_
      simp only [Except.map, after, groups_append, unfinished_append, tail_append, List.length_append]
    | refused e h hsize hcount hlines =>
      refine .refused e (fun ht => h ⟨ht.good, ht.room⟩) hfits hsize (fun he => ?_) <|
        hfeed.trans <| congrArg (Except.map _) hlines
      have hroom := hcount he
      rw [Room, not_or] at hroom
      rw [groups_append, List.length_append]
      simpa [after] using hroom.right

theorem feeds_append (p : SSEParser) (chunks chunks' : List Bytes) :
    feeds p (chunks ++ chunks') = (do
      let (frames, p)  ← feeds p chunks
      let (frames', p) ← feeds p chunks'
      return (frames ++ frames', p)) := by
  induction chunks generalizing p with
  | nil            =>
    simp only [feeds, List.nil_append, bind, Except.bind]
    cases feeds p chunks' <;> rfl
  | cons c chunks ih =>
    simp only [List.cons_append, feeds, bind, Except.bind]
    cases feed utf8 p c with
    | error e => rfl
    | ok x    =>
      simp only [ih, bind, Except.bind]
      cases feeds x.2 chunks with
      | error e => rfl
      | ok y    =>
        simp only [pure, Except.pure]
        cases feeds y.2 chunks' with
        | error e => rfl
        | ok z    => simp

theorem admitted_cons_iff : Admitted max_frame_bytes max_frames [] (chunks ++ chunk :: chunks') ↔
    Admitted max_frame_bytes max_frames [] chunks ∧
      Takes max_frame_bytes max_frames chunks.flatten chunk ∧
      Admitted max_frame_bytes max_frames (chunks.flatten ++ chunk) chunks' := by
  suffices h : ∀ stream, Admitted max_frame_bytes max_frames stream (chunks ++ chunk :: chunks') ↔
      Admitted max_frame_bytes max_frames stream chunks ∧
        Takes max_frame_bytes max_frames (stream ++ chunks.flatten) chunk ∧
        Admitted max_frame_bytes max_frames (stream ++ chunks.flatten ++ chunk) chunks' from h []
  induction chunks with
  | nil              => intro stream; simp [Admitted]
  | cons c chunks ih =>
    intro stream
    rw [List.cons_append, Admitted, Admitted, ih, List.flatten_cons, List.append_assoc stream, and_assoc]

-- What chunks come to: they are all taken, or one of them is refused after those before it.
theorem feeds_cases (max_frame_bytes max_frames : Int) (chunks : List Bytes) :
    (Admitted max_frame_bytes max_frames [] chunks ∧
      feeds (fresh max_frame_bytes max_frames) chunks =
        .ok ((groups chunks.flatten).map frame, after max_frame_bytes max_frames chunks.flatten)) ∨
    ∃ before chunk rest e, chunks = before ++ chunk :: rest ∧
      Admitted max_frame_bytes max_frames [] before ∧
      ¬Takes max_frame_bytes max_frames before.flatten chunk ∧
      feed utf8 (after max_frame_bytes max_frames before.flatten) chunk = .error e ∧
      feeds (fresh max_frame_bytes max_frames) chunks = .error e := by
  induction chunks using List.reverseRecOn with
  | nil => exact .inl ⟨trivial, rfl⟩
  | append_singleton chunks chunk ih =>
    obtain ⟨ha, hf⟩ | ⟨before, c, rest, e, rfl, ha, ht, hc, hf⟩ := ih
    case inl =>
      have hone : feeds (fresh max_frame_bytes max_frames) (chunks ++ [chunk]) =
          (feed utf8 (after max_frame_bytes max_frames chunks.flatten) chunk).map fun x =>
            ((groups chunks.flatten).map frame ++ x.1, x.2) := by
        rw [feeds_append, hf]
        simp only [bind, Except.bind, feeds]
        cases feed utf8 (after max_frame_bytes max_frames chunks.flatten) chunk with
        | error e => rfl
        | ok x    => simp [pure, Except.pure, Except.map]
      have hrefused {e : StreamProtocolError}
          (hfeed : feed utf8 (after max_frame_bytes max_frames chunks.flatten) chunk = .error e) :
          feeds (fresh max_frame_bytes max_frames) (chunks ++ [chunk]) = .error e := by
        rw [hone, hfeed]
        rfl
      cases feeds_of max_frame_bytes max_frames chunks.flatten chunk with
      | taken h hfeed               =>
        refine .inl ⟨admitted_cons_iff.mpr ⟨ha, h, trivial⟩, ?_⟩
        rw [hone, hfeed, List.flatten_append, List.flatten_singleton, groups_append, List.map_append]
        rfl
      | long h hfeed                =>
        exact .inr ⟨chunks, chunk, [], _, rfl, ha, fun ht => absurd ht.fits (by omega), hfeed,
          hrefused hfeed⟩
      | refused e h _ _ _ hfeed     =>
        exact .inr ⟨chunks, chunk, [], e, rfl, ha, h, hfeed, hrefused hfeed⟩
    case inr =>
      refine .inr ⟨before, c, rest ++ [chunk], e, by simp, ha, ht, hc, ?_⟩
      rw [feeds_append, hf]
      rfl

theorem Admitted.feeds (h : Admitted max_frame_bytes max_frames [] chunks) :
    feeds (fresh max_frame_bytes max_frames) chunks =
      .ok ((groups chunks.flatten).map frame, after max_frame_bytes max_frames chunks.flatten) := by
  obtain ⟨-, hf⟩ | ⟨before, c, rest, e, rfl, -, ht, -⟩ := feeds_cases max_frame_bytes max_frames chunks
  · exact hf
  · exact absurd (admitted_cons_iff.mp h).right.left ht

theorem feeds_ok {frames : List StreamFrame} {p : SSEParser}
    (h : feeds (fresh max_frame_bytes max_frames) chunks = .ok (frames, p)) :
    Admitted max_frame_bytes max_frames [] chunks ∧ frames = (groups chunks.flatten).map frame ∧
      p = after max_frame_bytes max_frames chunks.flatten := by
  obtain ⟨ha, hf⟩ | ⟨_, _, _, e, -, -, -, -, hf⟩ := feeds_cases max_frame_bytes max_frames chunks
  · obtain ⟨rfl, rfl⟩ := Prod.mk.inj <| Except.ok.inj <| hf.symm.trans h
    exact ⟨ha, rfl, rfl⟩
  · cases hf.symm.trans h

section

variable (max_frame_bytes max_frames : Int)

-- What the frame that is under way comes to with a chunk: all its fields if the chunk ends it, and
-- else its fields so far with the unread rest.
def under_way (stream chunk : Bytes) : ℕ :=
  match (sections (unfinished stream) (completed stream chunk)).1 with
  | g :: _ => size g
  | []     => (tail (stream ++ chunk)).length + size (unfinished (stream ++ chunk))

-- Every frame of a stream is within the limit, also the one it leaves unfinished, and so is their
-- number.
structure Within (stream : Bytes) : Prop where
  frames     : ∀ g ∈ groups stream, (size g : Int) ≤ max_frame_bytes
  count      : ((groups stream).length : Int) ≤ max_frames
  unfinished : ((tail stream).length + size (unfinished stream) : Int) ≤ max_frame_bytes

-- The limit bounds the fields of every frame and what the parser retains after every call, and
-- rejects no stream that is within it.
structure Bounded (chunks : List Bytes) : Prop where
  emits : ∀ fed, fed <+: chunks →
    ∀ frames p, feeds (fresh max_frame_bytes max_frames) fed = .ok (frames, p) →
      frames = (groups fed.flatten).map frame ∧
        ∀ g ∈ groups fed.flatten, (size g : Int) ≤ max_frame_bytes
  retains : ∀ fed chunk, fed ++ [chunk] <+: chunks →
    ∀ frames p, feeds (fresh max_frame_bytes max_frames) (fed ++ [chunk]) = .ok (frames, p) →
      (p._buffer.length + size p._fields : Int) ≤ max_frame_bytes
  accepts : ∀ fed, fed <+: chunks → Within max_frame_bytes max_frames fed.flatten →
    feeds (fresh max_frame_bytes max_frames) fed ≠ .error .frame_exceeds_byte_limit ∧
    feeds (fresh max_frame_bytes max_frames) fed ≠ .error .frame_count_exceeded

-- Where chunks are taken, the frame under way stays within the limit; and in a stream that is within
-- it, so does every chunk with the line it continues.
structure Paced (chunks : List Bytes) : Prop where
  under_way : ∀ fed chunk, fed ++ [chunk] <+: chunks →
    Admitted max_frame_bytes max_frames [] (fed ++ [chunk]) →
      (under_way fed.flatten chunk : Int) ≤ max_frame_bytes
  fits : ∀ fed chunk rest, fed ++ chunk :: rest <+: chunks →
    Within max_frame_bytes max_frames (fed ++ chunk :: rest).flatten →
    Admitted max_frame_bytes max_frames [] fed →
      ((tail fed.flatten).length + chunk.length : Int) ≤ max_frame_bytes

end

-- Only the frame under way holds bytes that came before the chunk and the line it continues.
theorem Takes.bounds (h : Takes max_frame_bytes max_frames stream chunk)
    (hu : (under_way stream chunk : Int) ≤ max_frame_bytes) :
    (∀ g ∈ (sections (unfinished stream) (completed stream chunk)).1, (size g : Int) ≤ max_frame_bytes) ∧
    ((tail (stream ++ chunk)).length + size (unfinished (stream ++ chunk)) : Int) ≤ max_frame_bytes := by
  have hsize := sections_size (unfinished stream) (completed stream chunk)
  have hlength := congrArg List.length (partition_spec (tail stream ++ chunk)).1
  rw [List.length_append, List.length_append, ← tail_append] at hlength
  have hfits := h.fits
  unfold under_way at hu
  cases hg : (sections (unfinished stream) (completed stream chunk)).1 with
  | nil       =>
    rw [hg] at hu
    exact ⟨List.forall_mem_nil _, by exact_mod_cast hu⟩
  | cons g gs =>
    have hhead := size_le_head hg
    rw [hg] at hu
    rw [hg, List.map_cons, List.sum_cons, ← unfinished_append] at hsize
    change _ ≤ _ + (joined (partition (tail stream ++ chunk)).1).length at hsize
    refine ⟨?_, by omega⟩
    rintro g' (_ | ⟨_, hg'⟩)
    · exact hu
    · have := List.single_le_sum (by simp) _ (List.mem_map_of_mem hg' (f := size))
      omega

theorem Paced.bounds (h : Paced max_frame_bytes max_frames chunks)
    (hfed : fed <+: chunks) (ha : Admitted max_frame_bytes max_frames [] fed) :
    ∀ g ∈ groups fed.flatten, (size g : Int) ≤ max_frame_bytes := by
  induction fed using List.reverseRecOn with
  | nil => exact List.forall_mem_nil _
  | append_singleton fed chunk ih =>
    obtain ⟨ha', ht, -⟩ := admitted_cons_iff.mp ha
    rw [List.flatten_append, List.flatten_singleton, groups_append]
    intro g hg
    obtain hg | hg := List.mem_append.mp hg
    · exact ih ((List.prefix_append _ _).trans hfed) ha' g hg
    · exact (ht.bounds (h.under_way fed chunk hfed ha)).left g hg

-- Frames that are added are counted.
theorem groups_length_le (stream rest : Bytes) :
    (groups stream).length ≤ (groups (stream ++ rest)).length := by
  rw [groups_append, List.length_append]
  omega

-- A line of sixteen bytes.
def long_line : Bytes :=
  [100, 97, 116, 97, 58, 32, 97, 97, 97, 97, 97, 97, 97, 97, 97, 10]

theorem takes_long_line : Takes 16 10000 [] long_line where
  fits := by decide
  good := by decide
  room := by unfold Room; decide

theorem takes_second : Takes 16 10000 long_line long_line where
  fits := by decide
  good := by decide
  room := by unfold Room; decide

theorem takes_blank : Takes 16 10000 (long_line ++ long_line) [10] where
  fits := by decide
  good := by decide +kernel
  room := by unfold Room; decide +kernel

end SSEParser

end Streaming
