import Traceline.Traces.Files
import Traceline.Library.Except

namespace Traces

open Events Lines

variable {codec : Codec} {stopped : Bytes → List Char × String} {events : List TraceEvent}
variable {text line s : List Char} {e : TraceEvent}

section Text

theorem encode_append {text text' : List Char} :
    encode (text ++ text') = encode text ++ encode text' := by
  simp [encode, String.ofList_append]

theorem decode_encode : decode (encode text) = some text := by
  have h : ByteArray.mk ⟨encode text⟩ = text.utf8Encode := rfl
  rw [decode, h, List.utf8Decode?_utf8Encode]
  rfl

theorem space_of_jsonspace {c : Char} (h : jsonspace c) : isspace c := by
  simp only [jsonspace, decide_eq_true_eq, List.mem_cons, List.not_mem_nil, or_false] at h
  rcases h with rfl | rfl | rfl | rfl <;> rfl

theorem space_of_linebreak {c : Char} (h : linebreak c) : isspace c := by
  simp only [linebreak, isspace, decide_eq_true_eq, List.mem_cons, List.not_mem_nil, or_false] at *
  omega

theorem linebreak_of_newline {c : Char} (h : newline c) : linebreak c := by
  simp only [newline, decide_eq_true_eq, List.mem_cons, List.not_mem_nil, or_false] at h
  rcases h with rfl | rfl <;> rfl

theorem linebreak_printable {c : Char} (hs : jsonspace c) (hc : ' ' ≤ c) : ¬linebreak c := by
  simp only [jsonspace, decide_eq_true_eq, List.mem_cons, List.not_mem_nil, or_false] at hs
  rcases hs with rfl | rfl | rfl | rfl
  · decide
  all_goals exact absurd hc (by decide)

end Text

-- The lines that the runner reads events from, before it strips them.
def file_lines (text : List Char) : List (List Char) :=
  (lines newline [] text).filter (nonblank isspace)

-- The lines that the local adapter reads events from.
def split_lines (text : List Char) : List (List Char) :=
  (lines linebreak [] text).filter (nonblank isspace)

-- What the local adapter makes of a line of the file.
def pieces (line : List Char) : List (List Char) :=
  (line.splitOnP linebreak).filter (nonblank isspace)

theorem filter_blank {xs : List (List Char)} (hs : ∀ c ∈ s, isspace c)
    (hxs : ∀ x ∈ xs, ∀ c ∈ x, c ∈ s) : xs.filter (nonblank isspace) = [] := by
  refine List.filter_eq_nil_iff.mpr fun x hx => ?_
  rw [Bool.not_eq_true, nonblank_eq_false_iff]
  exact fun c hc => hs c <| hxs x hx c hc

theorem pieces_blank (h : nonblank isspace line = false) : pieces line = [] :=
  filter_blank (nonblank_eq_false_iff.mp h) fun _ hx _ hc => (mem_of_mem_splitOnP hx hc).left

theorem split_lines_eq : split_lines text = (file_lines text).flatMap pieces := by
  rw [split_lines, file_lines, filter_lines rfl rfl, filter_lines rfl rfl, List.reverse_nil,
    List.splitOnPPrepend_nil_right, List.splitOnPPrepend_nil_right,
    splitOnP_flatMap (fun _ => linebreak_of_newline), List.filter_flatMap]
  induction text.splitOnP newline with
  | nil             => rfl
  | cons line ls ih =>
    rw [List.flatMap_cons, List.filter_cons, ih]
    split
    case isTrue    => rfl
    case isFalse h =>
      have hblank := pieces_blank <| eq_false_of_ne_true h
      rw [pieces] at hblank
      rw [hblank, List.nil_append]

-- The line has one event text at most for both readers, and what is around it is space in JSON.
def Plain (line : List Char) : Prop :=
  ∃ w w', (∀ c ∈ w, jsonspace c) ∧ (∀ c ∈ w', jsonspace c) ∧
    pieces line = [w ++ strip isspace line ++ w']

section Codec

def Codec.Event (codec : Codec) (s : List Char) : Prop :=
  ∃ e, codec.from_jsonl s = .ok e

def Codec.Reads (codec : Codec) (ss : List (List Char)) (events : List TraceEvent) : Prop :=
  List.Forall₂ (fun s e => codec.from_jsonl s = .ok e) ss events

-- The text of an event is an object, and the space around it is that of JSON.
theorem Codec.exists_object (h : codec.from_jsonl s = .ok e) : ∃ w w', (∀ c ∈ w, jsonspace c) ∧
    (∀ c ∈ w', jsonspace c) ∧ s = w ++ strip isspace s ++ w' ∧ '{' ∈ s := by
  obtain ⟨w, m, w', rfl, hw, hw'⟩ := codec.object s e h
  have htrim : Trimmed isspace ('{' :: (m ++ ['}'])) := by
    constructor
    case head => rintro c ⟨⟩; decide
    case last =>
      rw [← List.cons_append, List.getLast?_append]
      rintro c ⟨⟩
      decide
  have hsplit : w ++ '{' :: (m ++ '}' :: w') = w ++ '{' :: (m ++ ['}']) ++ w' := by simp
  have hstrip := strip_append (fun c hc => space_of_jsonspace <| hw c hc) htrim
    (fun c hc => space_of_jsonspace <| hw' c hc) (List.cons_ne_nil _ _)
  refine ⟨w, w', hw, hw', ?_, by simp⟩
  rw [hsplit, hstrip]

theorem Codec.strip_ok (h : codec.from_jsonl s = .ok e) :
    codec.from_jsonl (strip isspace s) = .ok e := by
  obtain ⟨w, w', hw, hw', hs, _⟩ := codec.exists_object h
  rw [hs] at h
  exact (codec.padded _ _ _ _ hw hw').mp h

theorem Codec.nonblank_of_ok (h : codec.from_jsonl s = .ok e) : nonblank isspace s := by
  obtain ⟨_, _, _, _, _, hmem⟩ := codec.exists_object h
  exact nonblank_of_mem hmem (by decide)

-- Space before the text of an event is space in JSON.
theorem Codec.jsonspace_of_ok {p : List Char} {c : Char} (hp : ∀ c ∈ p, isspace c)
    (hc : ¬isspace c) (h : codec.from_jsonl (p ++ c :: s) = .ok e) : ∀ c ∈ p, jsonspace c := by
  obtain ⟨w, w', hw, _, hx, _⟩ := codec.exists_object h
  have hne : strip isspace (p ++ c :: s) ≠ [] :=
    fun h => hc <| strip_eq_nil_iff.mp h c (by simp)
  have hhead : ∀ d ∈ (strip isspace (p ++ c :: s) ++ w').head?, ¬isspace d := by
    rw [List.head?_append_of_ne_nil _ hne]
    exact trimmed_strip.head
  have hleft := takeWhile_append hp (s := c :: s) (by rintro _ ⟨⟩; exact hc)
  have hright := takeWhile_append (fun c hc => space_of_jsonspace <| hw c hc) hhead
  rw [← List.append_assoc, ← hx, hleft] at hright
  rwa [hright]

end Codec

-- A line break inside of an event text leaves the local adapter with a part of it.
theorem not_event_of_linebreak {p q : List Char} (hs : codec.Event s) (htrim : Trimmed isspace s)
    (hp : ∀ c ∈ p, isspace c) {b : Char} (hb : b ∈ s) (hbreak : linebreak b) :
    ∃ x ∈ pieces (p ++ s ++ q), ¬codec.Event x := by
  obtain ⟨xs, p', hsuffix, hfree, _, hleft⟩ :=
    @splitOnP_left linebreak p (s ++ q)
  obtain ⟨ys, _, hright⟩ := splitOnP_right (y := s ++ q) hfree
  have hp' : ∀ c ∈ p', isspace c := fun c hc => hp c <| hsuffix.subset hc
  have hcut : (s ++ q).takeWhile (!linebreak ·) = s.takeWhile (!linebreak ·) := by
    rw [List.takeWhile_append, if_neg]
    intro h
    have hall := List.takeWhile_eq_self_iff.mp (List.takeWhile_prefix _ |>.eq_of_length h) b hb
    simp [hbreak] at hall
  have hsplit := List.takeWhile_append_dropWhile (p := (!linebreak ·)) (l := s)
  have hrest : s.dropWhile (!linebreak ·) ≠ [] := by
    intro h
    have hall := List.dropWhile_eq_nil_iff.mp h b hb
    simp [hbreak] at hall
  obtain ⟨e, hs⟩ := hs
  obtain ⟨c, s', rfl⟩ : ∃ c s', s = c :: s' := List.exists_cons_of_ne_nil <| List.ne_nil_of_mem hb
  have hc : ¬isspace c := htrim.head c rfl
  have hkeep : (c :: s').takeWhile (!linebreak ·) = c :: s'.takeWhile (!linebreak ·) :=
    List.takeWhile_cons_of_pos <| by simpa using mt space_of_linebreak hc
  refine ⟨p' ++ (c :: s').takeWhile (!linebreak ·), ?_, ?_⟩
  · rw [pieces, List.append_assoc, hleft, hright, hcut]
    refine List.mem_filter.mpr ⟨by simp, nonblank_of_mem (c := c) ?_ hc⟩
    rw [hkeep]
    simp
  · rintro ⟨e', he'⟩
    have hw : ∀ c ∈ p', jsonspace c := by
      rw [hkeep] at he'
      exact codec.jsonspace_of_ok hp' hc he'
    have hall : codec.from_jsonl (p' ++ (c :: s').takeWhile (!linebreak ·) ++
        (c :: s').dropWhile (!linebreak ·)) = .ok e := by
      rw [List.append_assoc, hsplit, ← List.append_nil (p' ++ _)]
      exact (codec.padded p' _ [] e hw fun _ h => by cases h).mpr hs
    -- the rest of the event would have to be space
    have hspace := codec.whole _ _ _ _ he' hall
    have hlast : (c :: s').getLast? = ((c :: s').dropWhile (!linebreak ·)).getLast? := by
      conv_lhs => rw [← hsplit]
      exact List.getLast?_append_of_ne_nil _ hrest
    have hmem := List.getLast_mem hrest
    refine htrim.last _ ?_ <| space_of_jsonspace <| hspace _ hmem
    rw [hlast, List.getLast?_eq_some_getLast hrest]
    rfl

-- Where both readers find events in a line, the line is plain.
theorem plain_of_events (hs : codec.Event (strip isspace line))
    (hpieces : ∀ x ∈ pieces line, codec.Event x) : Plain line := by
  obtain ⟨p, q, hline, hp, hq⟩ := @exists_strip isspace line
  have htrim : Trimmed isspace (strip isspace line) := trimmed_strip
  have hblank : nonblank isspace (strip isspace line) := hs.elim fun _ => codec.nonblank_of_ok
  have hfree : ∀ c ∈ strip isspace line, ¬linebreak c := by
    intro b hb hbreak
    obtain ⟨x, hx, he⟩ := not_event_of_linebreak (q := q) hs htrim hp hb hbreak
    rw [← hline] at hx
    exact he <| hpieces x hx
  have hne : strip isspace line ≠ [] := by
    intro h
    rw [h] at hblank
    cases hblank
  obtain ⟨xs, p', hsuffix, hfree', hxs, hleft⟩ :=
    @splitOnP_left linebreak p (strip isspace line ++ q)
  have hbefore : ∀ c ∈ p' ++ strip isspace line, ¬linebreak c :=
    fun c hc => (List.mem_append.mp hc).elim (hfree' c) (hfree c)
  obtain ⟨ys, hys, hright⟩ := splitOnP_right (y := q) hbefore
  have hp' : ∀ c ∈ p', isspace c := fun c hc => hp c <| hsuffix.subset hc
  have hq' : ∀ c ∈ q.takeWhile (!linebreak ·), isspace c :=
    fun c hc => hq c <| (List.takeWhile_prefix _).subset hc
  have hstrip := strip_append hp' htrim hq' hne
  have hone : pieces line = [p' ++ strip isspace line ++ q.takeWhile (!linebreak ·)] := by
    conv_lhs => rw [hline]
    rw [pieces, List.append_assoc, hleft, ← List.append_assoc, hright, List.filter_append,
      filter_blank hp hxs, List.nil_append, List.filter_cons_of_pos, filter_blank hq hys]
    rw [nonblank, hstrip]
    simpa using hne
  obtain ⟨e, he⟩ := hpieces (p' ++ strip isspace line ++ q.takeWhile (!linebreak ·)) <| by
    rw [hone]
    exact .head _
  obtain ⟨w, w', hw, hw', hx, _⟩ := codec.exists_object he
  rw [hstrip] at hx
  exact ⟨w, w', hw, hw', hone.trans <| congrArg (fun x => [x]) hx⟩

theorem reads_pieces {ls : List (List Char)} (h : ∀ line ∈ ls, Plain line) :
    codec.Reads (ls.flatMap pieces) events ↔ codec.Reads (ls.map (strip isspace)) events := by
  induction ls generalizing events with
  | nil            => rfl
  | cons line ls ih =>
    obtain ⟨w, w', hw, hw', hone⟩ := h line (.head _)
    have ih := fun es => @ih es fun x hx => h x (.tail _ hx)
    rw [List.flatMap_cons, hone, List.singleton_append, List.map_cons, Codec.Reads, Codec.Reads,
      List.forall₂_cons_left_iff, List.forall₂_cons_left_iff]
    simp only [codec.padded w _ w' _ hw hw']
    exact exists₂_congr fun _ es => and_congr_right fun _ => and_congr_left fun _ => ih es

section Readers

theorem encode_nil : encode [] = [] :=
  rfl

theorem read_lines_ok_iff {k : ℕ} {acc : List TraceEvent} {ls : List (List Char)} :
    Runner.read_lines .eof k acc (ls.map (trace_line codec)) = .ok (.ok events) ↔
      ∃ es, codec.Reads ((ls.filter (nonblank isspace)).map (strip isspace)) es ∧
        events = acc ++ es := by
  induction ls generalizing k acc with
  | nil            =>
    constructor
    · rintro ⟨⟩
      exact ⟨[], .nil, (List.append_nil _).symm⟩
    · rintro ⟨_, ⟨⟩, rfl⟩
      rw [List.append_nil]
      rfl
  | cons line ls ih =>
    rw [List.map_cons, trace_line, List.filter_cons, nonblank]
    split
    case h_1 h =>
      rw [h]
      exact ih
    case h_2 h =>
      rw [if_pos (by simpa using h), List.map_cons]
      cases he : codec.from_jsonl (strip isspace line) with
      | error m =>
        refine iff_of_false (by rintro ⟨⟩) ?_
        rintro ⟨_, hes, _⟩
        cases hes with
        | cons he' _ => cases he.symm.trans he'
      | ok e    =>
        refine ih.trans ⟨?_, ?_⟩
        · rintro ⟨es, hes, rfl⟩
          exact ⟨e :: es, .cons he hes, List.append_assoc ..⟩
        · rintro ⟨_, hes, rfl⟩
          cases hes with
          | cons he' hes =>
            cases he.symm.trans he'
            exact ⟨_, hes, by simp⟩

theorem read_lines_decode_error {k : ℕ} {acc : List TraceEvent} {ls : List Runner.TraceLine}
    {message : String} : Runner.read_lines (.decode_error message) k acc ls ≠ .ok (.ok events) := by
  induction ls generalizing k acc with
  | nil            => rintro ⟨⟩
  | cons line ls ih =>
    cases line with
    | blank     => exact ih
    | event e   => exact ih
    | invalid m => rintro ⟨⟩

-- What the runner reads in a file under its cap.
theorem read_trace_ok_iff {data : Bytes} (hsize : data.length ≤ Runner.MAX_TRACE_FILE_BYTES) :
    Runner.read_trace (trace_file codec stopped (some data)) = .ok (.ok events) ↔
      ∃ text, decode data = some text ∧
        codec.Reads ((file_lines text).map (strip isspace)) events := by
  have hcap : ¬data.length > Runner.MAX_TRACE_FILE_BYTES := not_lt.mpr hsize
  rw [trace_file]
  cases hd : decode data with
  | none      =>
    have hne : data.length ≠ 0 := by
      intro h
      rw [List.eq_nil_of_length_eq_zero h, ← encode_nil, decode_encode] at hd
      cases hd
    simp only [Runner.read_trace, if_neg hne, if_neg hcap]
    exact iff_of_false read_lines_decode_error (by rintro ⟨_, ⟨⟩, _⟩)
  | some text =>
    have hread : (∃ text', some text = some text' ∧
        codec.Reads ((file_lines text').map (strip isspace)) events) ↔
        codec.Reads ((file_lines text).map (strip isspace)) events :=
      ⟨by rintro ⟨_, ⟨⟩, h⟩; exact h, fun h => ⟨_, rfl, h⟩⟩
    rw [hread, Runner.read_trace]
    by_cases hz : data.length = 0
    case pos =>
      rw [List.eq_nil_of_length_eq_zero hz, ← encode_nil, decode_encode] at hd
      cases hd
      rw [if_pos hz]
      constructor
      · rintro ⟨⟩
        exact .nil
      · rintro ⟨⟩
        rfl
    case neg =>
      rw [if_neg hz, if_neg hcap, read_lines_ok_iff]
      exact ⟨by rintro ⟨_, h, rfl⟩; exact h, fun h => ⟨_, h, rfl⟩⟩

-- What the local adapter reads in a file.
theorem trace_events_ok_iff {data : Bytes} : trace_events codec (some data) = .ok events ↔
    ∃ text, decode data = some text ∧ codec.Reads (split_lines text) events := by
  rw [trace_events]
  cases decode data with
  | none      => exact iff_of_false (by rintro ⟨⟩) (by rintro ⟨_, ⟨⟩, _⟩)
  | some text =>
    dsimp only
    rw [Except.mapError_eq_ok_iff, Except.mapM_eq_ok_iff]
    exact ⟨fun h => ⟨_, rfl, h⟩, by rintro ⟨_, ⟨⟩, h⟩; exact h⟩

end Readers

-- Both readers find the same events in the file.
def Agree (codec : Codec) (stopped : Bytes → List Char × String) (data : Bytes) : Prop :=
  ∀ events, Runner.read_trace (trace_file codec stopped (some data)) = .ok (.ok events) ↔
    trace_events codec (some data) = .ok events

-- Every line is plain, or there is something for both readers that is no event.
def Legible (codec : Codec) (data : Bytes) : Prop :=
  ∀ text, decode data = some text → (∀ line ∈ file_lines text, Plain line) ∨
    (∃ line ∈ file_lines text, ¬codec.Event (strip isspace line)) ∧
      ∃ line ∈ split_lines text, ¬codec.Event line

theorem Codec.Reads.event {ss : List (List Char)} (h : codec.Reads ss events) (hs : s ∈ ss) :
    codec.Event s := by
  obtain ⟨e, _, he⟩ := h.exists_of_mem_left hs
  exact ⟨e, he⟩

theorem Codec.exists_reads {ss : List (List Char)} (h : ∀ s ∈ ss, codec.Event s) :
    ∃ events, codec.Reads ss events := by
  obtain ⟨es, hes⟩ := Except.exists_mapM_eq_ok_iff.mpr h
  exact ⟨es, Except.mapM_eq_ok_iff.mp hes⟩

theorem plain_of_reads {es : List TraceEvent}
    (h : codec.Reads ((file_lines text).map (strip isspace)) events)
    (h' : codec.Reads (split_lines text) es) : ∀ line ∈ file_lines text, Plain line := by
  intro line hline
  refine plain_of_events (h.event <| List.mem_map_of_mem hline) fun x hx => h'.event ?_
  rw [split_lines_eq]
  exact List.mem_flatMap_of_mem hline hx

theorem agree_iff_legible {data : Bytes} (hsize : data.length ≤ Runner.MAX_TRACE_FILE_BYTES) :
    Agree codec stopped data ↔ Legible codec data := by
  simp only [Agree, read_trace_ok_iff hsize, trace_events_ok_iff, Legible]
  constructor
  case mp =>
    intro h text htext
    by_cases hevents : ∀ s ∈ (file_lines text).map (strip isspace), codec.Event s
    case pos =>
      obtain ⟨events, hread⟩ := Codec.exists_reads hevents
      obtain ⟨text', htext', hsplit⟩ := (h events).mp ⟨text, htext, hread⟩
      cases htext.symm.trans htext'
      exact .inl <| plain_of_reads hread hsplit
    case neg =>
      refine .inr ⟨?_, ?_⟩
      · by_contra hno
        refine hevents fun s hs => ?_
        obtain ⟨line, hline, rfl⟩ := List.mem_map.mp hs
        exact not_not.mp fun h => hno ⟨line, hline, h⟩
      · by_contra hno
        obtain ⟨events, hsplit⟩ := @Codec.exists_reads codec (split_lines text)
          fun s hs => not_not.mp fun h => hno ⟨s, hs, h⟩
        obtain ⟨text', htext', hread⟩ := (h events).mpr ⟨text, htext, hsplit⟩
        cases htext.symm.trans htext'
        exact hevents fun s hs => hread.event hs
  case mpr =>
    intro h events
    refine exists_congr fun text => and_congr_right fun htext => ?_
    rcases h text htext with hplain | ⟨⟨line, hline, hfile⟩, s, hs, hsplit⟩
    · rw [split_lines_eq]
      exact (reads_pieces hplain).symm
    · exact iff_of_false (fun h => hfile <| h.event <| List.mem_map_of_mem hline)
        fun h => hsplit <| h.event hs

section Written

-- The codec is its own inverse on the event.
def Codec.Inverse (codec : Codec) (e : TraceEvent) : Prop :=
  codec.from_jsonl (codec.to_jsonl e) = .ok e

theorem foldl_append {data : Bytes} : events.foldl (_append codec) data =
    data ++ encode (events.flatMap fun e => codec.to_jsonl e ++ ['\n']) := by
  induction events generalizing data with
  | nil         => rw [List.flatMap_nil, encode_nil, List.append_nil, List.foldl_nil]
  | cons e es ih =>
    rw [List.foldl_cons, ih, _append, List.flatMap_cons, @encode_append _ (es.flatMap _),
      List.append_assoc]

theorem decode_written : decode (written codec events) =
    some (events.flatMap fun e => codec.to_jsonl e ++ ['\n']) := by
  rw [written, foldl_append, List.nil_append, decode_encode]

theorem newline_printable {c : Char} (hc : ' ' ≤ c) : ¬newline c := by
  intro h
  simp only [newline, decide_eq_true_eq, List.mem_cons, List.not_mem_nil, or_false] at h
  rcases h with rfl | rfl <;> exact absurd hc (by decide)

theorem file_lines_written (h : ∀ e ∈ events, codec.Inverse e) :
    file_lines (events.flatMap fun e => codec.to_jsonl e ++ ['\n']) =
      events.map codec.to_jsonl := by
  rw [file_lines, filter_lines rfl rfl, List.reverse_nil, List.splitOnPPrepend_nil_right]
  induction events with
  | nil         => rfl
  | cons e es ih =>
    have hfree : ∀ c ∈ codec.to_jsonl e, newline c = false :=
      fun c hc => eq_false_of_ne_true <| newline_printable <| codec.printable e c hc
    rw [List.flatMap_cons, List.append_assoc, List.singleton_append,
      List.splitOnP_append_cons_of_forall_mem hfree '\n' rfl,
      List.filter_cons_of_pos (codec.nonblank_of_ok <| h e (.head _)),
      ih fun e he => h e (.tail _ he), List.map_cons]

-- The line of an event is plain where no character that goes unescaped ends a line.
theorem plain_iff (h : codec.Inverse e) :
    Plain (codec.to_jsonl e) ↔ ∀ c ∈ codec.to_jsonl e, ¬linebreak c := by
  obtain ⟨w, w', hw, hw', hs, _⟩ := codec.exists_object h
  have hprint := codec.printable e
  constructor
  case mp =>
    rintro ⟨v, v', _, _, hone⟩ c hc
    have hmem : v ++ strip isspace (codec.to_jsonl e) ++ v' ∈
        (codec.to_jsonl e).splitOnP linebreak := by
      refine List.mem_of_mem_filter (p := nonblank isspace) ?_
      rw [← pieces, hone]
      exact .head _
    have hcmem := hc
    rw [hs] at hcmem
    rcases List.mem_append.mp hcmem with hc' | hc'
    · rcases List.mem_append.mp hc' with hc' | hc'
      · exact linebreak_printable (hw c hc') (hprint c hc)
      · exact (mem_of_mem_splitOnP hmem (by simp [hc'])).right
    · exact linebreak_printable (hw' c hc') (hprint c hc)
  case mpr =>
    intro hfree
    refine ⟨w, w', hw, hw', ?_⟩
    rw [pieces, List.splitOnP_eq_singleton (by simpa using hfree),
      List.filter_cons_of_pos (codec.nonblank_of_ok h), List.filter_nil, ← hs]

theorem linebreak_iff {c : Char} (hc : ' ' ≤ c) :
    linebreak c ↔ c ∈ ['\u0085', '\u2028', '\u2029'] := by
  have hc : 32 ≤ c.toNat := hc
  have hnat : ∀ d : Char, c = d ↔ c.toNat = d.toNat := fun d => Char.toNat_inj.symm
  simp only [linebreak, decide_eq_true_eq, List.mem_cons, List.not_mem_nil, or_false, hnat,
    show '\u0085'.toNat = 0x85 from rfl, show '\u2028'.toNat = 0x2028 from rfl,
    show '\u2029'.toNat = 0x2029 from rfl]
  omega

-- The runner reads back what was written.
theorem read_trace_written (h : ∀ e ∈ events, codec.Inverse e)
    (hsize : (written codec events).length ≤ Runner.MAX_TRACE_FILE_BYTES) :
    Runner.read_trace (trace_file codec stopped (some (written codec events))) =
      .ok (.ok events) := by
  refine (read_trace_ok_iff hsize).mpr ⟨_, decode_written, ?_⟩
  rw [file_lines_written h, Codec.Reads, List.map_map, List.forall₂_map_left_iff,
    List.forall₂_same]
  exact fun e he => codec.strip_ok <| h e he

-- The local adapter does so where no character ends a line for it.
theorem trace_events_written_iff (h : ∀ e ∈ events, codec.Inverse e) :
    trace_events codec (some (written codec events)) = .ok events ↔
      ∀ e ∈ events, ∀ c ∈ codec.to_jsonl e, c ∉ ['\u0085', '\u2028', '\u2029'] := by
  have hread : codec.Reads ((events.map codec.to_jsonl).map (strip isspace)) events := by
    rw [Codec.Reads, List.map_map, List.forall₂_map_left_iff, List.forall₂_same]
    exact fun e he => codec.strip_ok <| h e he
  have hlines := file_lines_written h
  have hplain : (∀ line ∈ events.map codec.to_jsonl, Plain line) ↔
      ∀ e ∈ events, ∀ c ∈ codec.to_jsonl e, c ∉ ['\u0085', '\u2028', '\u2029'] := by
    rw [List.forall_mem_map]
    refine forall₂_congr fun e he => (plain_iff <| h e he).trans ?_
    exact forall₂_congr fun c hc => not_congr <| linebreak_iff <| codec.printable e c hc
  rw [trace_events_ok_iff, ← hplain]
  constructor
  case mp =>
    rintro ⟨text, htext, hsplit⟩
    cases decode_written.symm.trans htext
    rw [← hlines] at hread ⊢
    exact plain_of_reads hread hsplit
  case mpr =>
    intro hplain
    refine ⟨_, decode_written, ?_⟩
    rw [split_lines_eq, hlines]
    exact (reads_pieces hplain).mpr hread

end Written

-- The runner reads back every file that was written. The local adapter does so where no event has a
-- character in it that ends a line for `str.splitlines` alone, and on a file that anybody wrote the
-- two agree where it has nothing but plain lines, or something for both that is no event.
theorem trace_files :
    (∀ events, (∀ e ∈ events, codec.Inverse e) →
      (written codec events).length ≤ Runner.MAX_TRACE_FILE_BYTES →
        (Runner.read_trace (trace_file codec stopped (some (written codec events))) =
            .ok (.ok events) ∧
          trace_events codec (some (written codec events)) = .ok events ↔
          ∀ e ∈ events, ∀ c ∈ codec.to_jsonl e, c ∉ ['\u0085', '\u2028', '\u2029'])) ∧
    ∀ data, data.length ≤ Runner.MAX_TRACE_FILE_BYTES →
      (Agree codec stopped data ↔ Legible codec data) := by
  refine ⟨fun events h hsize => ?_, fun data hsize => agree_iff_legible hsize⟩
  rw [← trace_events_written_iff h]
  exact and_iff_right <| read_trace_written h hsize

namespace Notes

-- What the file has before and after the text of a note.
def before : List Char :=
  [
    "\x7b\"event_id\":\"event\",\"run_id\":\"run\",\"workspace_id\":\"default\",\"case_id\":\"case\",",
    "\"attempt_id\":\"attempt\",\"repeat_index\":0,\"attempt\":0,\"sequence\":0,",
    "\"type\":\"guardrail_check\",\"source\":\"runner\",\"timestamp\":\"2025-08-31T23:59:59Z\",",
    "\"duration_ms\":null,\"parent_event_id\":null,\"provider_request_id\":null,\"tool\":null,",
    "\"otel\":null,\"cost\":null,\"redaction_state\":\x7b\"status\":\"clean\",\"rules\":[]\x7d,",
    "\"payload\":\x7b\"note\":\""
  ].flatMap String.toList

def after : List Char :=
  "\"\x7d,\"payload_ref\":null,\"error\":null\x7d".toList

-- Text that JSON holds as it is.
def unescaped (c : Char) : Bool :=
  Nat.ble 32 c.toNat && c ≠ '"' && c ≠ '\\'

def note (text : List Char) : TraceEvent where
  event_id          := "event"
  run_id            := "run"
  workspace_id      := "default"
  case_id           := "case"
  attempt_id        := "attempt"
  type              := .guardrail_check
  source            := .runner
  timestamp         := ⟨1756684799000000, some 0⟩
  redaction_state   := some {}
  payload           := some [("note", .str (String.ofList text))]
  tool_typed_column := by decide

def note_text (e : TraceEvent) : List Char :=
  match e.payload with
  | some [(_, .str s)] => s.toList
  | _                  => []

def to_jsonl (e : TraceEvent) : List Char :=
  if e = note (note_text e) ∧ (note_text e).all unescaped then before ++ note_text e ++ after else ['{', '}']

def from_jsonl (s : List Char) : Except String TraceEvent :=
  let value := strip jsonspace s
  let note_text := (value.drop before.length).takeWhile unescaped
  if value = before ++ note_text ++ after then .ok (note note_text) else .error "not a note"

theorem from_jsonl_ok_iff {s : List Char} {e : TraceEvent} : from_jsonl s = .ok e ↔
    ∃ t, t.all unescaped ∧ strip jsonspace s = before ++ t ++ after ∧ e = note t := by
  rw [from_jsonl]
  constructor
  case mp =>
    intro h
    split at h
    case isTrue hvalue =>
      refine ⟨_, List.all_eq_true.mpr fun _ => List.mem_takeWhile_imp, hvalue, ?_⟩
      exact (Except.ok.inj h).symm
    case isFalse => cases h
  case mpr =>
    rintro ⟨t, ht, hs, rfl⟩
    have htext : ((strip jsonspace s).drop before.length).takeWhile unescaped = t := by
      rw [hs, List.append_assoc, List.drop_left]
      exact takeWhile_append (List.all_eq_true.mp ht) (by rintro c ⟨⟩; decide)
    rw [htext, if_pos hs]

-- The characters of a literal need no decoding where they are known.
theorem of_literal {s : String} {l : List Char} (P : List Char → Prop) (hs : s = String.ofList l)
    (hl : P l) : P s.toList := by
  rw [hs, String.toList_ofList]
  exact hl

def Short (l : List Char) : Prop :=
  l.length ≤ 90 ∧ l.all (Nat.ble 32 ·.toNat) = true

instance {l : List Char} : Decidable (Short l) :=
  inferInstanceAs <| Decidable (_ ∧ _)

theorem short_flatMap {ss : List String} (h : ∀ s ∈ ss, Short s.toList) {n : ℕ}
    (hn : 90 * ss.length ≤ n) : (ss.flatMap String.toList).length ≤ n ∧
      (ss.flatMap String.toList).all (Nat.ble 32 ·.toNat) = true := by
  induction ss generalizing n with
  | nil         => exact ⟨Nat.zero_le n, rfl⟩
  | cons s ss ih =>
    rw [List.length_cons] at hn
    obtain ⟨hlength, hall⟩ := @ih (fun t ht => h t (.tail _ ht)) (n - 90) (by omega)
    have hs := h s (.head _)
    rw [List.flatMap_cons, List.length_append, List.all_append, hs.right, hall]
    have := hs.left
    exact ⟨by omega, rfl⟩

theorem head?_flatMap {s : String} {ss : List String} {c : Char} (h : s.toList.head? = some c) :
    ((s :: ss).flatMap String.toList).head? = some c := by
  rw [List.flatMap_cons, List.head?_append, h]
  rfl

theorem before_text : before.head? = some '\x7b' ∧ before.length ≤ 540 ∧
    before.all (Nat.ble 32 ·.toNat) = true := by
  unfold before
  refine ⟨head?_flatMap ?_, short_flatMap ?_ (by decide)⟩
  · exact of_literal (fun l => l.head? = some '\x7b') rfl rfl
  · refine List.forall_mem_cons.mpr ⟨of_literal Short rfl (by decide), ?_⟩
    refine List.forall_mem_cons.mpr ⟨of_literal Short rfl (by decide), ?_⟩
    refine List.forall_mem_cons.mpr ⟨of_literal Short rfl (by decide), ?_⟩
    refine List.forall_mem_cons.mpr ⟨of_literal Short rfl (by decide), ?_⟩
    refine List.forall_mem_cons.mpr ⟨of_literal Short rfl (by decide), ?_⟩
    exact List.forall_mem_singleton.mpr <| of_literal Short rfl (by decide)

theorem after_text : after.getLast? = some '\x7d' ∧ after.length ≤ 450 ∧
    after.all (Nat.ble 32 ·.toNat) = true := by
  unfold after
  have hshort := @of_literal "\"\x7d,\"payload_ref\":null,\"error\":null\x7d" _ Short rfl (by decide)
  refine ⟨of_literal (fun l => l.getLast? = some '\x7d') rfl rfl, ?_, hshort.right⟩
  exact Nat.le_trans hshort.left (by decide)

theorem trimmed_note {t : List Char} : Trimmed jsonspace (before ++ t ++ after) := by
  constructor
  case head =>
    rw [List.append_assoc, List.head?_append, And.left before_text]
    rintro _ ⟨⟩
    decide
  case last =>
    rw [List.getLast?_append, And.left after_text]
    rintro _ ⟨⟩
    decide

theorem space_le {c : Char} (h : Nat.ble 32 c.toNat = true) : ' ' ≤ c :=
  Nat.ble_eq.mp h

theorem printable (e : TraceEvent) : ∀ c ∈ to_jsonl e, ' ' ≤ c := by
  obtain ⟨-, -, hbefore⟩ := before_text
  obtain ⟨-, -, hafter⟩ := after_text
  have hother : ['{', '}'].all (Nat.ble 32 ·.toNat) = true := rfl
  rw [to_jsonl]
  split
  case isTrue h  =>
    intro c hc
    rcases List.mem_append.mp hc with hc | hc
    · rcases List.mem_append.mp hc with hc | hc
      · exact space_le <| List.all_eq_true.mp hbefore c hc
      · have := List.all_eq_true.mp h.right c hc
        simp only [unescaped, Bool.and_eq_true] at this
        exact space_le this.left.left
    · exact space_le <| List.all_eq_true.mp hafter c hc
  case isFalse =>
    exact fun c hc => space_le <| List.all_eq_true.mp hother c hc

theorem object (s : List Char) (e : TraceEvent) (h : from_jsonl s = .ok e) :
    ∃ w m w', s = w ++ '\x7b' :: (m ++ '\x7d' :: w') ∧ (∀ c ∈ w, jsonspace c) ∧
      ∀ c ∈ w', jsonspace c := by
  obtain ⟨t, _, hs, _⟩ := Iff.mp from_jsonl_ok_iff h
  obtain ⟨p, q, hline, hp, hq⟩ := @exists_strip jsonspace s
  have hbefore : before = '\x7b' :: before.tail := (List.cons_head?_tail (And.left before_text)).symm
  have hafter : after = after.dropLast ++ ['\x7d'] :=
    (List.dropLast_append_getLast? _ (And.left after_text)).symm
  refine ⟨p, before.tail ++ t ++ after.dropLast, q, ?_, hp, hq⟩
  rw [hline, hs, hbefore, hafter]
  simp

theorem padded (w s w' : List Char) (e : TraceEvent) (hw : ∀ c ∈ w, jsonspace c)
    (hw' : ∀ c ∈ w', jsonspace c) :
    from_jsonl (w ++ s ++ w') = .ok e ↔ from_jsonl s = .ok e := by
  rw [from_jsonl_ok_iff, from_jsonl_ok_iff, strip_pad hw hw']

theorem whole (s t : List Char) (e e' : TraceEvent) (h : from_jsonl s = .ok e)
    (h' : from_jsonl (s ++ t) = .ok e') : ∀ c ∈ t, jsonspace c := by
  obtain ⟨x, hx, hs, _⟩ := Iff.mp from_jsonl_ok_iff h
  obtain ⟨y, hy, ht, _⟩ := Iff.mp from_jsonl_ok_iff h'
  obtain ⟨p, q, hline, hp, hq⟩ := @exists_strip jsonspace s
  obtain ⟨p', q', hline', hp', hq'⟩ := @exists_strip jsonspace (s ++ t)
  rw [hs] at hline
  rw [ht] at hline'
  have hhead : ∀ {z r : List Char}, ∀ c ∈ (before ++ (z ++ (after ++ r))).head?, ¬jsonspace c := by
    intro z r
    rw [List.head?_append, And.left before_text]
    rintro _ ⟨⟩
    decide
  have hquote : ∀ {r : List Char}, ∀ c ∈ (after ++ r).head?, ¬unescaped c := by
    rintro _ _ ⟨⟩
    decide
  have hsame : p ++ (before ++ (x ++ (after ++ (q ++ t)))) =
      p' ++ (before ++ (y ++ (after ++ q'))) := by
    rw [hline] at hline'
    simpa only [List.append_assoc] using hline'
  have hpp : p = p' := by
    rw [← takeWhile_append hp (hhead (z := x) (r := q ++ t)), hsame, takeWhile_append hp' hhead]
  rw [hpp, List.append_right_inj, List.append_right_inj] at hsame
  have hxy : x = y := by
    rw [← takeWhile_append (List.all_eq_true.mp hx) (hquote (r := q ++ t)), hsame,
      takeWhile_append (List.all_eq_true.mp hy) hquote]
  rw [hxy, List.append_right_inj, List.append_right_inj] at hsame
  exact fun c hc => hq' c <| hsame ▸ List.mem_append_right q hc

def notes : Codec where
  to_jsonl
  from_jsonl
  printable
  object
  padded
  whole

theorem from_jsonl_notes : notes.from_jsonl = from_jsonl :=
  rfl

theorem to_jsonl_note {t : List Char} (ht : t.all unescaped) :
    notes.to_jsonl (note t) = before ++ t ++ after := by
  have htext : note_text (note t) = t := String.toList_ofList
  show to_jsonl (note t) = _
  rw [to_jsonl, htext, if_pos ⟨rfl, ht⟩]

theorem inverse {t : List Char} (ht : t.all unescaped) : notes.Inverse (note t) := by
  rw [Codec.Inverse, to_jsonl_note ht]
  have hafter : after ≠ [] := fun h => by
    obtain ⟨hlast, -⟩ := after_text
    rw [h] at hlast
    cases hlast
  have hne : before ++ t ++ after ≠ [] := List.append_ne_nil_of_right_ne_nil _ hafter
  have hstrip := strip_append (p := []) (q := []) (fun _ h => by cases h) trimmed_note
    (fun _ h => by cases h) hne
  rw [List.nil_append, List.append_nil] at hstrip
  exact (congrFun from_jsonl_notes _).trans <| Iff.mpr from_jsonl_ok_iff ⟨t, ht, hstrip, rfl⟩

-- A tab is escaped and a dash is not, but neither is a line separator.
def separated : TraceEvent :=
  note ['a', '\u2028', 'b']

def halted : Bytes → List Char × String :=
  fun _ => ([], "'utf-8' codec can't decode")

theorem separated_text : notes.to_jsonl separated = before ++ ['a', '\u2028', 'b'] ++ after :=
  to_jsonl_note rfl

theorem length_encode_le {text : List Char} : (encode text).length ≤ 4 * text.length := by
  have hencode : encode text = text.flatMap String.utf8EncodeChar := by
    simp [encode, String.toByteArray_ofList, List.utf8Encode]
  rw [hencode]
  clear hencode
  induction text with
  | nil         => exact Nat.le_refl 0
  | cons c text ih =>
    have hc := c.utf8Size_le_four
    rw [List.flatMap_cons, List.length_append, String.length_utf8EncodeChar, List.length_cons]
    omega

theorem separated_fits : (written notes [separated]).length ≤ Runner.MAX_TRACE_FILE_BYTES := by
  -- about any texts, since the kernel would count the characters of these
  have hlength : ∀ p q : List Char, p.length ≤ 540 → q.length ≤ 450 →
      (p ++ ['a', '\u2028', 'b'] ++ q ++ ['\n']).length ≤ 1000 := by
    intro p q hp hq
    simp only [List.length_append, List.length_cons, List.length_nil]
    omega
  have hcap : 4 * 1000 ≤ Runner.MAX_TRACE_FILE_BYTES := by
    unfold Runner.MAX_TRACE_FILE_BYTES
    omega
  have htext : (notes.to_jsonl separated ++ ['\n']).length ≤ 1000 := by
    rw [separated_text]
    obtain ⟨-, hbefore, -⟩ := before_text
    obtain ⟨-, hafter, -⟩ := after_text
    exact hlength _ _ hbefore hafter
  rw [written, foldl_append, List.nil_append, List.flatMap_singleton]
  exact Nat.le_trans length_encode_le <| Nat.le_trans (Nat.mul_le_mul_left 4 htext) hcap

end Notes

-- The claim that a file that was written is read back by both.
theorem not_trace_files :
    ¬∀ (codec : Codec) (stopped : Bytes → List Char × String) (events : List TraceEvent),
      (∀ e ∈ events, codec.Inverse e) →
      (written codec events).length ≤ Runner.MAX_TRACE_FILE_BYTES →
        Runner.read_trace (trace_file codec stopped (some (written codec events))) =
            .ok (.ok events) ∧
          trace_events codec (some (written codec events)) = .ok events := by
  intro h
  have hinverse : ∀ e ∈ [Notes.separated], Notes.notes.Inverse e := by
    intro e he
    rw [List.mem_singleton.mp he]
    exact Notes.inverse rfl
  have hlocal := (h Notes.notes Notes.halted [Notes.separated] hinverse Notes.separated_fits).right
  refine (trace_events_written_iff hinverse).mp hlocal _ (.head _) '\u2028' ?_ (by simp)
  rw [Notes.separated_text]
  simp

theorem trace_files_separated :
    ¬(Runner.read_trace (trace_file Notes.notes Notes.halted
          (some (written Notes.notes [Notes.separated]))) = .ok (.ok [Notes.separated]) ∧
        trace_events Notes.notes (some (written Notes.notes [Notes.separated])) =
          .ok [Notes.separated]) := by
  have hinverse : ∀ e ∈ [Notes.separated], Notes.notes.Inverse e := by
    intro e he
    rw [List.mem_singleton.mp he]
    exact Notes.inverse rfl
  rw [@trace_files Notes.notes Notes.halted |>.left _ hinverse Notes.separated_fits]
  refine fun h => h _ (.head _) '\u2028' ?_ (by simp)
  rw [Notes.separated_text]
  simp

end Traces
