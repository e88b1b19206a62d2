import Traceline.Datasets.Theorems.Order

-- When the two formats of one list of objects import alike.
namespace Datasets

open Lines (lines nonblank)
open Traces (isspace linebreak)
open Except (bind_eq_ok_iff)

-- The rows of objects that are numbered from `number` on.
def numbered (number : ℕ) : List Fields → List Row
  | []          => []
  | doc :: docs => { row_number := number, document := doc, csv := false } :: numbered (number + 1) docs

-- Objects of a mapping, as they are imported from either format.
def reported (L : Python) (mapping : Fields) (docs : List Fields) : Except Error (List Case) := do
  let cases ← cases_of_rows L (numbered 1 docs) mapping
  _reject_duplicate_identities [] cases
  return cases

-- `{**mapping, "format": fmt}`
def formatted (fmt : String) (mapping : Fields) : Fields :=
  ("format", .str fmt) :: mapping

section

variable {L : Python} {docs docs' : List Fields} {mapping : Fields} {rows : List (List Char)} {n : ℕ}
variable {row p q : List Char}

theorem linebreak_isspace {c : Char} (h : linebreak c) : isspace c := by
  unfold linebreak at h
  unfold isspace
  rw [decide_eq_true_eq] at h ⊢
  have hsub : [0x0a, 0x0b, 0x0c, 0x0d, 0x1c, 0x1d, 0x1e, 0x85, 0x2028, 0x2029] ⊆
    [0x09, 0x0a, 0x0b, 0x0c, 0x0d, 0x1c, 0x1d, 0x1e, 0x1f, 0x20, 0x85, 0xa0, 0x1680, 0x2000,
      0x2001, 0x2002, 0x2003, 0x2004, 0x2005, 0x2006, 0x2007, 0x2008, 0x2009, 0x200a, 0x2028, 0x2029,
      0x202f, 0x205f, 0x3000] := by decide
  exact hsub h

-- A line break other than the two of JSON only stands in strings.
theorem linebreak_cases {c : Char} (h : linebreak c) :
    c = '\n' ∨ c = '\r' ∨ ¬Loads.space c ∧ ¬Loads.plain c := by
  unfold linebreak at h
  rw [decide_eq_true_eq] at h
  have hall : ∀ k ∈ [0x0a, 0x0b, 0x0c, 0x0d, 0x1c, 0x1d, 0x1e, 0x85, 0x2028, 0x2029],
      Char.ofNat k = '\n' ∨ Char.ofNat k = '\r' ∨
        ¬Loads.space (Char.ofNat k) ∧ ¬Loads.plain (Char.ofNat k) := by decide
  have hc := hall c.toNat h
  rwa [Char.ofNat_toNat] at hc

-- At the start of a text, space is skipped, and other space is refused.
theorem step_start {c : Char} (h : isspace c) :
    Loads.step {} c = if Loads.space c then some {} else none := by
  unfold isspace at h
  rw [decide_eq_true_eq] at h
  have hall : ∀ k ∈ [0x09, 0x0a, 0x0b, 0x0c, 0x0d, 0x1c, 0x1d, 0x1e, 0x1f, 0x20, 0x85, 0xa0, 0x1680,
      0x2000, 0x2001, 0x2002, 0x2003, 0x2004, 0x2005, 0x2006, 0x2007, 0x2008, 0x2009, 0x200a, 0x2028,
      0x2029, 0x202f, 0x205f, 0x3000], Char.ofNat k ≠ '"' ∧ Char.ofNat k ≠ '[' ∧
        Char.ofNat k ≠ '\x7b' ∧ Loads.plain (Char.ofNat k) = false := by decide
  have hc := hall c.toNat h
  rw [Char.ofNat_toNat] at hc
  obtain ⟨hquote, hbracket, hbrace, hplain⟩ := hc
  simp [Loads.step, hquote, hbracket, hbrace, hplain]

theorem step_blank (h : nonblank isspace p = false) :
    ∀ c ∈ p, Loads.step {} c = some {} ∨ Loads.step {} c = none := by
  intro c hc
  rw [step_start (Lines.nonblank_eq_false_iff.mp h c hc)]
  split
  · exact .inl rfl
  · exact .inr rfl

theorem loads_nonblank (h : (loads row).isSome) : nonblank isspace row := by
  by_contra hblank
  rw [Loads.loads_blank (step_blank (eq_false_of_ne_true hblank))] at h
  cases h

-- The first piece of a row that is split in two is no row.
theorem loads_piece {c : Char} (hc : linebreak c) (hn : c ≠ '\n') (hr : c ≠ '\r')
    (h : (loads (p ++ c :: q)).isSome) : nonblank isspace p ∧ loads p = none := by
  obtain hs | hs | ⟨hs, hp⟩ := linebreak_cases hc
  · exact absurd hs hn
  · exact absurd hs hr
  refine ⟨?_, Loads.loads_cut hs hp h⟩
  by_contra hblank
  have hstep : Loads.step {} c = none := by
    rw [step_start (linebreak_isspace hc), if_neg hs]
  rw [Loads.loads_refused (step_blank (eq_false_of_ne_true hblank)) hstep] at h
  cases h

-- The text of rows.
def joined (rows : List (List Char)) : List Char :=
  List.intercalate ['\n'] rows

def Unbroken (rows : List (List Char)) : Prop :=
  ∀ row ∈ rows, ∀ c ∈ row, ¬linebreak c

theorem linebreak_newline : linebreak '\n' ∧ linebreak '\r' := by
  decide

-- The first row of a text, and the rest of it.
theorem lines_joined {row : List Char} (hne : row ≠ []) (hrow : ∀ c ∈ row, ¬linebreak c) :
    lines linebreak [] (joined (row :: rows)) = row :: lines linebreak [] (joined rows) := by
  cases rows with
  | nil            => 
    have hnil : lines linebreak [] (joined []) = [] := rfl
    rw [hnil, joined, List.intercalate_singleton]
    exact Lines.lines_eq_singleton linebreak_newline.right hrow hne
  | cons next rows =>
    rw [joined, List.intercalate_cons_cons, List.append_assoc,
      Lines.lines_append linebreak_newline.right hrow, List.nil_append, List.cons_append]
    exact Lines.lines_break linebreak_newline.left (by decide)

theorem go_joined (hrows : List.Forall₂ (fun row doc => loads row = some (.obj doc)) rows docs)
    (h : Unbroken rows) : _iter_jsonl.go n (lines linebreak [] (joined rows)) = .ok (numbered n docs) := by
  induction hrows generalizing n with
  | nil                                  => rfl
  | @cons row doc rows docs hrow hrows ih =>
    obtain ⟨hrow', hrest⟩ := List.forall_mem_cons.mp h
    have hne : row ≠ [] := by
      rintro rfl
      cases hrow
    rw [lines_joined hne hrow', _iter_jsonl.go, if_pos (loads_nonblank (by rw [hrow]; rfl)), hrow]
    dsimp only
    rw [ih hrest]
    rfl

theorem exists_joined (row : List Char) (rows : List (List Char)) :
    ∃ rest, joined (row :: rows) = row ++ rest := by
  cases rows with
  | nil            => exact ⟨[], by rw [joined, List.intercalate_singleton, List.append_nil]⟩
  | cons next rows => exact ⟨_, by rw [joined, List.intercalate_cons_cons, List.append_assoc]⟩

-- A row that is broken makes one of its pieces a row.
theorem go_broken (hrows : List.Forall₂ (fun row doc => loads row = some (.obj doc)) rows docs)
    (hlines : ∀ row ∈ rows, '\n' ∉ row ∧ '\r' ∉ row) (h : ¬Unbroken rows) :
    (_iter_jsonl.go n (lines linebreak [] (joined rows))).toOption = none := by
  induction hrows generalizing n with
  | nil                                  => exact absurd (List.forall_mem_nil _) h
  | @cons row doc rows docs hrow hrows ih =>
    obtain ⟨hrow', hrest⟩ := List.forall_mem_cons.mp hlines
    by_cases hbreak : ∃ c ∈ row, linebreak c
    case pos =>
      obtain ⟨p, c, q, rfl, hp, hc⟩ := Lines.exists_break hbreak
      obtain ⟨rest, hrest⟩ := exists_joined (p ++ c :: q) rows
      have hn : c ≠ '\n' := fun he => hrow'.left <| List.mem_append_right _ <| he ▸ .head _
      have hr : c ≠ '\r' := fun he => hrow'.right <| List.mem_append_right _ <| he ▸ .head _
      obtain ⟨hnonblank, hloads⟩ := loads_piece hc hn hr (by rw [hrow]; rfl)
      rw [hrest, List.append_assoc, List.cons_append, Lines.lines_append linebreak_newline.right hp,
        Lines.lines_break hc hr, List.nil_append, _iter_jsonl.go, if_pos hnonblank, hloads]
      rfl
    case neg =>
      have hwhole : ∀ c ∈ row, ¬linebreak c := fun c hc hb => hbreak ⟨c, hc, hb⟩
      have hne : row ≠ [] := by
        rintro rfl
        cases hrow
      have hrows' : ¬Unbroken rows := fun hu => h <| List.forall_mem_cons.mpr ⟨hwhole, hu⟩
      replace ih := @ih (n + 1) hrest hrows'
      rw [lines_joined hne hwhole, _iter_jsonl.go, if_pos (loads_nonblank (by rw [hrow]; rfl)), hrow]
      dsimp only
      cases hgo : _iter_jsonl.go (n + 1) (lines linebreak [] (joined rows)) with
      | error e => rfl
      | ok x    => simp [hgo, Except.toOption] at ih

theorem json_go : _iter_json.go n (docs.map .obj) = .ok (numbered n docs) := by
  induction docs generalizing n with
  | nil            => rfl
  | cons doc docs ih =>
    rw [List.map_cons, _iter_json.go, ih]
    rfl

theorem numbered_csv : ∀ row ∈ numbered n docs, row.csv = false := by
  induction docs generalizing n with
  | nil            => exact List.forall_mem_nil _
  | cons doc docs ih => exact List.forall_mem_cons.mpr ⟨rfl, ih⟩

theorem numbered_length : (numbered n docs).length = docs.length := by
  induction docs generalizing n with
  | nil            => rfl
  | cons doc docs ih => rw [numbered, List.length_cons, ih, List.length_cons]

-- The format is no part of what a row is mapped by.
theorem case_formatted {row : Row} (fmt : String) (h : row.csv = false) :
    _case L row (formatted fmt mapping) = _case L row mapping := by
  unfold _case case_id parts
  rw [h]
  rfl

theorem cases_formatted (fmt : String) :
    ((numbered n docs).mapM fun row => _case L row (formatted fmt mapping)) =
      (numbered n docs).mapM fun row => _case L row mapping := by
  have hcsv := @numbered_csv docs n
  generalize numbered n docs = rows at hcsv ⊢
  induction rows with
  | nil            => rfl
  | cons row rows ih =>
    obtain ⟨hrow, hrows⟩ := List.forall_mem_cons.mp hcsv
    rw [List.mapM_cons, List.mapM_cons, case_formatted fmt hrow, ih hrows]

theorem reported_formatted (fmt : String) :
    reported L (formatted fmt mapping) docs = reported L mapping docs := by
  unfold reported cases_of_rows
  rw [cases_formatted]

theorem imported_json {array : String} (hsize : array.utf8ByteSize ≤ MAX_UPLOAD_BYTES)
    (h : loads array.toList = some (.arr (docs.map .obj))) :
    imported L array (formatted "json" mapping) = reported L mapping docs := by
  have hiter : _iter_json array = .ok (numbered 1 docs) := by
    unfold _iter_json
    rw [h]
    exact json_go
  rw [← reported_formatted "json"]
  unfold imported _parse reported
  rw [if_neg (Nat.not_lt.mpr hsize)]
  simp only [formatted, List.lookup_cons, beq_self_eq_true, hiter]
  rfl

-- The rows of a text.
theorem imported_jsonl {rows : List String}
    (hsize : (String.intercalate "\n" rows).utf8ByteSize ≤ MAX_UPLOAD_BYTES)
    (hrows : List.Forall₂ (fun row doc => loads row = some (.obj doc)) (rows.map String.toList) docs)
    (h : Unbroken (rows.map String.toList)) :
    imported L (String.intercalate "\n" rows) (formatted "jsonl" mapping) = reported L mapping docs := by
  have hiter : _iter_jsonl (String.intercalate "\n" rows) = .ok (numbered 1 docs) := by
    unfold _iter_jsonl
    rw [String.toList_intercalate]
    exact go_joined hrows h
  rw [← reported_formatted "jsonl"]
  unfold imported _parse reported
  rw [if_neg (Nat.not_lt.mpr hsize)]
  simp only [formatted, List.lookup_cons, beq_self_eq_true, hiter]
  rfl

theorem imported_broken {rows : List String}
    (hsize : (String.intercalate "\n" rows).utf8ByteSize ≤ MAX_UPLOAD_BYTES)
    (hrows : List.Forall₂ (fun row doc => loads row = some (.obj doc)) (rows.map String.toList) docs)
    (hlines : ∀ row ∈ rows.map String.toList, '\n' ∉ row ∧ '\r' ∉ row)
    (h : ¬Unbroken (rows.map String.toList)) :
    (imported L (String.intercalate "\n" rows) (formatted "jsonl" mapping)).toOption = none := by
  have hiter : (_iter_jsonl (String.intercalate "\n" rows)).toOption = none := by
    unfold _iter_jsonl
    rw [String.toList_intercalate]
    exact go_broken hrows hlines h
  unfold imported _parse
  rw [if_neg (Nat.not_lt.mpr hsize)]
  simp only [formatted, List.lookup_cons, beq_self_eq_true]
  cases hi : _iter_jsonl (String.intercalate "\n" rows) with
  | error e => rfl
  | ok rows => simp [hi, Except.toOption] at hiter

-- Two cases of different identities.
def Distinct (a b : Case) : Prop :=
  a.case_id ≠ b.case_id ∧ a.input_hash ≠ b.input_hash

theorem reject_iff {seen cases : List Case} : _reject_duplicate_identities seen cases = .ok () ↔
    cases.Pairwise Distinct ∧ ∀ a ∈ seen, ∀ b ∈ cases, Distinct a b := by
  induction cases generalizing seen with
  | nil            => simp [_reject_duplicate_identities]
  | cons b cases ih =>
    rw [_reject_duplicate_identities]
    cases hid : seen.find? (·.case_id = b.case_id) with
    | some a =>
      have hmem := List.mem_of_find?_eq_some hid
      have heq := List.find?_some hid
      rw [decide_eq_true_eq] at heq
      refine iff_of_false (by simp) fun h => ?_
      exact (h.right a hmem b (.head _)).left heq
    | none   =>
      cases hhash : seen.find? (·.input_hash = b.input_hash) with
      | some a =>
        have hmem := List.mem_of_find?_eq_some hhash
        have heq := List.find?_some hhash
        rw [decide_eq_true_eq] at heq
        refine iff_of_false (by simp) fun h => ?_
        exact (h.right a hmem b (.head _)).right heq
      | none   =>
        have hb : ∀ a ∈ seen, Distinct a b := by
          intro a ha
          have hid := List.find?_eq_none.mp hid a ha
          have hhash := List.find?_eq_none.mp hhash a ha
          rw [decide_eq_true_eq] at hid hhash
          exact ⟨hid, hhash⟩
        simp only [Option.or_none, ih, List.forall_mem_append, List.forall_mem_singleton,
          List.pairwise_cons, List.forall_mem_cons]
        constructor
        · rintro ⟨hp, hseen, hcases⟩
          exact ⟨⟨hcases, hp⟩, fun a ha => ⟨hb a ha, hseen a ha⟩⟩
        · rintro ⟨⟨hcases, hp⟩, hseen⟩
          exact ⟨hp, fun a ha => (hseen a ha).right, hcases⟩

-- The objects that an import takes: no more than it may, each of them makes a case, and no two of
-- these have one id or one input.
structure Accepts (L : Python) (mapping : Fields) (docs : List Fields) : Prop where
  count : docs.length ≤ MAX_ROWS
  cases : ∃ cases, ((numbered 1 docs).mapM fun row => _case L row mapping) = .ok cases ∧
    cases.Pairwise Distinct

theorem reported_iff {cases : List Case} : reported L mapping docs = .ok cases ↔
    docs.length ≤ MAX_ROWS ∧ ((numbered 1 docs).mapM fun row => _case L row mapping) = .ok cases ∧
      cases.Pairwise Distinct := by
  unfold reported cases_of_rows
  rw [numbered_length]
  split
  case isTrue h  => exact iff_of_false (by simp [bind, Except.bind]) fun hc => absurd hc.left (by omega)
  case isFalse h =>
    rw [and_iff_right (by omega), bind_eq_ok_iff]
    constructor
    case mp =>
      rintro ⟨cases', hm, hr⟩
      obtain ⟨⟨⟩, hreject, hr⟩ := bind_eq_ok_iff.mp hr
      cases hr
      exact ⟨hm, (reject_iff.mp hreject).left⟩
    case mpr =>
      rintro ⟨hm, hd⟩
      refine ⟨cases, hm, bind_eq_ok_iff.mpr ⟨(), reject_iff.mpr ⟨hd, List.forall_mem_nil _⟩, rfl⟩⟩

theorem accepts_iff : Accepts L mapping docs ↔ ∃ cases, reported L mapping docs = .ok cases := by
  simp only [reported_iff]
  exact ⟨fun ⟨hcount, cases, h⟩ => ⟨cases, hcount, h⟩, fun ⟨cases, hcount, h⟩ => ⟨hcount, cases, h⟩⟩

-- The same cases in the same order, but for what their row numbers go into; or no cases in both.
def ImportAlike (x y : Except Error (List Case)) : Prop :=
  x.toOption.map (List.map Case.plain) = y.toOption.map (List.map Case.plain)

-- The id of an object, as it is written.
def selected_id (L : Python) (mapping : Fields) (doc : Fields) : Option String :=
  (case_id L { row_number := 0, document := doc, csv := false } mapping).toOption

theorem case_id_toOption (n : ℕ) (doc : Fields) :
    (case_id L { row_number := n, document := doc, csv := false } mapping).toOption =
      selected_id L mapping doc := by
  unfold selected_id case_id
  cases _mapped L doc (mapping.lookup "case_id") false with
  | error e => rfl
  | ok v    =>
    simp only [bind, Except.bind]
    split <;> rfl

theorem case_of_id {id : String} {p : Parts} {c : Case} (h : case_of L n id p = .ok c) :
    c.case_id = id := by
  unfold case_of at h
  split at h
  case h_2 => cases h
  case h_1 =>
    obtain ⟨encoded, -, h⟩ := bind_eq_ok_iff.mp h
    dsimp only at h
    split at h
    case isTrue  => cases h
    case isFalse =>
      obtain ⟨label, -, h⟩ := bind_eq_ok_iff.mp h
      obtain ⟨case_key, -, h⟩ := bind_eq_ok_iff.mp h
      obtain ⟨input_hash, -, h⟩ := bind_eq_ok_iff.mp h
      obtain ⟨reference_hash, -, h⟩ := bind_eq_ok_iff.mp h
      obtain ⟨metadata_hash, -, h⟩ := bind_eq_ok_iff.mp h
      obtain ⟨input, -, h⟩ := bind_eq_ok_iff.mp h
      obtain ⟨agent_request, -, h⟩ := bind_eq_ok_iff.mp h
      cases h
      rfl

theorem case_id_of_case {row : Row} {c : Case} (h : _case L row mapping = .ok c) :
    case_id L row mapping = .ok c.case_id := by
  obtain ⟨id, hid, h⟩ := bind_eq_ok_iff.mp h
  obtain ⟨p, -, h⟩ := bind_eq_ok_iff.mp h
  rw [hid, case_of_id h]

theorem ids_of_cases {cases : List Case}
    (h : ((numbered n docs).mapM fun row => _case L row mapping) = .ok cases) :
    docs.map (selected_id L mapping) = cases.map (some ·.case_id) := by
  induction docs generalizing n cases with
  | nil            =>
    cases h
    rfl
  | cons doc docs ih =>
    rw [numbered, List.mapM_cons] at h
    obtain ⟨c, hc, h⟩ := bind_eq_ok_iff.mp h
    obtain ⟨cases', hcases, h⟩ := bind_eq_ok_iff.mp h
    cases h
    rw [List.map_cons, List.map_cons, ih hcases, ← case_id_toOption n, case_id_of_case hc]
    rfl

theorem mapM_congr (hsame : List.Forall₂ (fun doc doc' => sorted (.obj doc) = sorted (.obj doc')) docs docs')
    (hid : docs.map (selected_id L mapping) = docs'.map (selected_id L mapping)) :
    ((numbered n docs).mapM fun row => _case L row mapping).toOption.map (List.map Case.plain) =
      ((numbered n docs').mapM fun row => _case L row mapping).toOption.map (List.map Case.plain) := by
  induction hsame generalizing n with
  | nil                              => rfl
  | @cons doc doc' docs docs' h hs ih =>
    obtain ⟨hid, hids⟩ := List.cons.inj hid
    rw [numbered, numbered, List.mapM_cons, List.mapM_cons]
    have hcase := @case_congr L mapping { row_number := n, document := doc, csv := false }
      { row_number := n, document := doc', csv := false }
      (by rw [case_id_toOption, case_id_toOption, hid]) h rfl rfl rfl
    replace ih := @ih (n + 1) hids
    cases hc : _case L { row_number := n, document := doc, csv := false } mapping with
    | error e =>
      cases hc' : _case L { row_number := n, document := doc', csv := false } mapping with
      | error e' => rfl
      | ok c'    => simp [hc, hc', Except.toOption] at hcase
    | ok c    =>
      cases hc' : _case L { row_number := n, document := doc', csv := false } mapping with
      | error e' => simp [hc, hc', Except.toOption] at hcase
      | ok c'    =>
        replace hcase : c.plain = c'.plain := by simpa [hc, hc', Except.toOption] using hcase
        cases hm : (numbered (n + 1) docs).mapM fun row => _case L row mapping with
        | error e =>
          cases hm' : (numbered (n + 1) docs').mapM fun row => _case L row mapping with
          | error e'  => rfl
          | ok cases' => simp [hm, hm', Except.toOption] at ih
        | ok cases =>
          cases hm' : (numbered (n + 1) docs').mapM fun row => _case L row mapping with
          | error e'  => simp [hm, hm', Except.toOption] at ih
          | ok cases' =>
            replace ih : cases.map Case.plain = cases'.map Case.plain := by
              simpa [hm, hm', Except.toOption] using ih
            exact congrArg some <| congrArg₂ List.cons hcase ih

theorem pairwise_plain_iff {cases : List Case} :
    (cases.map Case.plain).Pairwise Distinct ↔ cases.Pairwise Distinct :=
  List.pairwise_map

theorem reported_toOption :
    (reported L mapping docs).toOption.map (List.map Case.plain) = some cs ↔
      docs.length ≤ MAX_ROWS ∧
        ((numbered 1 docs).mapM fun row => _case L row mapping).toOption.map (List.map Case.plain) = some cs ∧
          cs.Pairwise Distinct := by
  constructor
  case mp =>
    intro h
    cases hr : reported L mapping docs with
    | error e  => simp [hr, Except.toOption] at h
    | ok cases =>
      obtain ⟨hcount, hm, hd⟩ := reported_iff.mp hr
      rw [hr] at h
      obtain rfl := Option.some.inj h
      exact ⟨hcount, by rw [hm]; rfl, pairwise_plain_iff.mpr hd⟩
  case mpr =>
    rintro ⟨hcount, h, hd⟩
    cases hm : (numbered 1 docs).mapM fun row => _case L row mapping with
    | error e  => simp [hm, Except.toOption] at h
    | ok cases =>
      rw [hm] at h
      obtain rfl := Option.some.inj h
      rw [reported_iff.mpr ⟨hcount, hm, pairwise_plain_iff.mp hd⟩]
      rfl

theorem reported_congr (hsame : List.Forall₂ (fun doc doc' => sorted (.obj doc) = sorted (.obj doc')) docs docs')
    (hid : docs.map (selected_id L mapping) = docs'.map (selected_id L mapping)) :
    ImportAlike (reported L mapping docs) (reported L mapping docs') := by
  refine Option.ext fun cs => ?_
  rw [reported_toOption, reported_toOption, hsame.length_eq, mapM_congr hsame hid]

theorem reported_none_iff : (reported L mapping docs).toOption = none ↔ ¬Accepts L mapping docs := by
  rw [accepts_iff]
  cases reported L mapping docs <;> simp [Except.toOption]

theorem ids_of_agree (h : ImportAlike (reported L mapping docs) (reported L mapping docs'))
    (ha : Accepts L mapping docs) : docs.map (selected_id L mapping) = docs'.map (selected_id L mapping) := by
  obtain ⟨cases, hr⟩ := accepts_iff.mp ha
  unfold ImportAlike at h
  rw [hr] at h
  cases hr' : reported L mapping docs' with
  | error e   => simp [hr', Except.toOption] at h
  | ok cases' =>
    rw [hr'] at h
    have hplain : cases.map Case.plain = cases'.map Case.plain := Option.some.inj h
    rw [ids_of_cases (reported_iff.mp hr).right.left, ids_of_cases (reported_iff.mp hr').right.left]
    have hids := congrArg (List.map fun c => some c.case_id) hplain
    rwa [List.map_map, List.map_map] at hids

theorem agree_none_iff {x y : Except Error (List Case)} (hy : y.toOption = none) :
    ImportAlike x y ↔ x.toOption = none := by
  unfold ImportAlike
  rw [hy, Option.map_none, Option.map_eq_none_iff]

-- One list of objects, as an array and as rows, is imported alike exactly if no row holds a
-- character that ends a line and the ids are written alike in both; or it is refused anyway.
theorem formats_agree_iff (L : Python) (mapping : Fields) (docs docs' : List Fields) (array : String)
    (rows : List String) (hsize : array.utf8ByteSize ≤ MAX_UPLOAD_BYTES)
    (hsize' : (String.intercalate "\n" rows).utf8ByteSize ≤ MAX_UPLOAD_BYTES)
    (harray : loads array.toList = some (.arr (docs.map .obj)))
    (hrows : List.Forall₂ (fun row doc => loads row = some (.obj doc)) (rows.map String.toList) docs')
    (hlines : ∀ row ∈ rows.map String.toList, '\n' ∉ row ∧ '\r' ∉ row)
    (hsame : List.Forall₂ (fun doc doc' => sorted (.obj doc) = sorted (.obj doc')) docs docs') :
    ImportAlike (imported L array (formatted "json" mapping))
      (imported L (String.intercalate "\n" rows) (formatted "jsonl" mapping)) ↔
    (Unbroken (rows.map String.toList) ∧
      docs.map (selected_id L mapping) = docs'.map (selected_id L mapping)) ∨
    ¬Accepts L mapping docs ∧ (Unbroken (rows.map String.toList) → ¬Accepts L mapping docs') := by
  rw [imported_json hsize harray]
  by_cases hb : Unbroken (rows.map String.toList)
  case neg =>
    rw [agree_none_iff (imported_broken hsize' hrows hlines hb), reported_none_iff]
    simp [hb]
  case pos =>
    rw [imported_jsonl hsize' hrows hb]
    simp only [hb, true_and, forall_const]
    constructor
    case mp =>
      intro h
      by_cases ha : Accepts L mapping docs
      case pos => exact .inl <| ids_of_agree h ha
      case neg =>
        refine .inr ⟨ha, ?_⟩
        have hnone := (agree_none_iff (reported_none_iff.mpr ha)).mp h.symm
        exact reported_none_iff.mp hnone
    case mpr =>
      rintro (hid | ⟨ha, ha'⟩)
      · exact reported_congr hsame hid
      · exact (agree_none_iff (reported_none_iff.mpr ha')).mpr <| reported_none_iff.mpr ha

end

namespace Separated

-- Digests that keep the text apart are as good as any here.
def python : Python where
  repr _        := "0.0"
  sha256        := id
  int _         := none
  quoted        := id
  inner _       := ""
  dict_reader _ := none

def mapping : Fields :=
  [("case_id", .str "/id"), ("input", .str "/in")]

def doc (question : String) : Fields :=
  [("id", .str "a"), ("in", .obj [("q", .str question)])]

def row (question : String) : String :=
  "\x7b\"id\":\"a\",\"in\":\x7b\"q\":\"" ++ question ++ "\"\x7d\x7d"

def array (question : String) : String :=
  "[" ++ row question ++ "]"

-- A question of two lines, as one text separates them.
def lined : String :=
  "x\u2028y"

theorem loads_rows : ∀ text ∈ [lined, "xy"], loads (row text).toList = some (.obj (doc text)) := by
  decide +kernel

theorem loads_row : List.Forall₂ (fun row doc => loads row = some (.obj doc))
    ([row lined].map String.toList) [doc lined] :=
  .cons (loads_rows _ (.head _)) .nil

-- The array imports, and the row is cut in two.
theorem formats_differ :
    ¬∀ (L : Python) (mapping : Fields) (docs docs' : List Fields) (array : String) (rows : List String),
      array.utf8ByteSize ≤ MAX_UPLOAD_BYTES →
      (String.intercalate "\n" rows).utf8ByteSize ≤ MAX_UPLOAD_BYTES →
      loads array.toList = some (.arr (docs.map .obj)) →
      List.Forall₂ (fun row doc => loads row = some (.obj doc)) (rows.map String.toList) docs' →
      (∀ row ∈ rows.map String.toList, '\n' ∉ row ∧ '\r' ∉ row) →
      List.Forall₂ (fun doc doc' => sorted (.obj doc) = sorted (.obj doc')) docs docs' →
      ImportAlike (imported L array (formatted "json" mapping))
        (imported L (String.intercalate "\n" rows) (formatted "jsonl" mapping)) := by
  intro hall
  have h := hall python mapping [doc lined] [doc lined] (array lined) [row lined]
    (by decide) (by decide) (by decide +kernel) loads_row (by decide)
    (.cons rfl .nil)
  revert h
  unfold ImportAlike
  decide +kernel

theorem loads_plain : List.Forall₂ (fun row doc => loads row = some (.obj doc))
    ([row "xy"].map String.toList) [doc "xy"] :=
  .cons (loads_rows _ (.tail _ (.head _))) .nil

theorem formats_agree_plain :
    ImportAlike (imported python (array "xy") (formatted "json" mapping))
      (imported python (String.intercalate "\n" [row "xy"]) (formatted "jsonl" mapping)) ↔
    (Unbroken ([row "xy"].map String.toList) ∧
      [doc "xy"].map (selected_id python mapping) = [doc "xy"].map (selected_id python mapping)) ∨
    ¬Accepts python mapping [doc "xy"] ∧
      (Unbroken ([row "xy"].map String.toList) → ¬Accepts python mapping [doc "xy"]) :=
  formats_agree_iff python mapping [doc "xy"] [doc "xy"] (array "xy") [row "xy"] (by decide)
    (by decide) (by decide +kernel) loads_plain (by decide +kernel) (.cons rfl .nil)

end Separated

end Datasets
