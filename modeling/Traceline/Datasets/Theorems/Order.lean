import Traceline.Datasets.Import
import Traceline.Library.Except
import Traceline.Library.Keys

-- The order of the keys of a document does not show in the case it makes, except in how its id is
-- written.
namespace Datasets

mutual

-- A document with its keys in order.
def sorted : Json → Json
  | .arr xs  => .arr (sorted_list xs)
  | .obj kvs => .obj (Keys.sort (sorted_fields kvs))
  | .null    => .null
  | .bool b  => .bool b
  | .int n   => .int n
  | .float x => .float x
  | .str s   => .str s

def sorted_list : List Json → List Json
  | []      => []
  | x :: xs => sorted x :: sorted_list xs

def sorted_fields : List (String × Json) → List (String × Json)
  | []            => []
  | (k, v) :: kvs => (k, sorted v) :: sorted_fields kvs

end

section

variable {D : Digests} {b : Bool} {j j' : Json} {xs : List Json} {kvs : Fields}

theorem sorted_list_eq : sorted_list xs = xs.map sorted := by
  induction xs with
  | nil          => rfl
  | cons x xs ih => rw [sorted_list, ih, List.map_cons]

theorem sorted_fields_eq : sorted_fields kvs = kvs.map (Prod.map id sorted) := by
  induction kvs with
  | nil           => rfl
  | cons kv kvs ih =>
    obtain ⟨k, v⟩ := kv
    rw [sorted_fields, ih, List.map_cons]
    rfl

theorem sorted_arr : sorted (.arr xs) = .arr (xs.map sorted) := by
  rw [sorted, sorted_list_eq]

theorem sorted_obj : sorted (.obj kvs) = .obj (Keys.sort (kvs.map (Prod.map id sorted))) := by
  rw [sorted, sorted_fields_eq]

@[simp]
theorem sorted_sorted : sorted (sorted j) = sorted j := by
  induction j using Json.induct with
  | arr xs ih  =>
    rw [sorted_arr, sorted_arr, List.map_map]
    exact congrArg Json.arr <| List.map_congr_left ih
  | obj kvs ih =>
    have hmap : kvs.map (Prod.map id (sorted ∘ sorted)) = kvs.map (Prod.map id sorted) :=
      List.map_congr_left fun kv hkv => Prod.ext rfl <| ih kv hkv
    rw [sorted_obj, sorted_obj, ← Keys.sort_map, Keys.sort_sort, List.map_map, Prod.map_comp_map,
      Function.id_comp, hmap]
  | _          => rfl

theorem dumps_list_eq : dumps_list D b xs = xs.map (dumps D b) := by
  induction xs with
  | nil          => rfl
  | cons x xs ih => rw [dumps_list, ih, List.map_cons]

theorem dumps_fields_eq : dumps_fields D b kvs = kvs.map (Prod.map id (dumps D b)) := by
  induction kvs with
  | nil           => rfl
  | cons kv kvs ih =>
    obtain ⟨k, v⟩ := kv
    rw [dumps_fields, ih, List.map_cons]
    rfl

theorem dumps_sorted : dumps D b (sorted j) = dumps D b j := by
  induction j using Json.induct with
  | arr xs ih  =>
    rw [sorted_arr, dumps, dumps, dumps_list_eq, dumps_list_eq, List.map_map]
    exact congrArg (enclose _ _) <| List.map_congr_left ih
  | obj kvs ih =>
    have hmap : kvs.map (Prod.map id (dumps D b ∘ sorted)) = kvs.map (Prod.map id (dumps D b)) :=
      List.map_congr_left fun kv hkv => Prod.ext rfl <| ih kv hkv
    have hsort : sort_keys (dumps_fields D b (Keys.sort (kvs.map (Prod.map id sorted)))) =
        sort_keys (dumps_fields D b kvs) := by
      change Keys.sort _ = Keys.sort _
      rw [dumps_fields_eq, dumps_fields_eq, ← Keys.sort_map, Keys.sort_sort, List.map_map,
        Prod.map_comp_map, Function.id_comp, hmap]
    rw [sorted_obj, dumps, dumps, hsort]
  | _          => rfl

theorem finiteFloatsList_eq : Json.finiteFloatsList xs = xs.all Json.finiteFloats := by
  induction xs with
  | nil          => rfl
  | cons x xs ih => rw [Json.finiteFloatsList, ih, List.all_cons]

theorem finiteFloatsFields_eq : Json.finiteFloatsFields kvs = kvs.all (·.2.finiteFloats) := by
  induction kvs with
  | nil           => rfl
  | cons kv kvs ih =>
    obtain ⟨k, v⟩ := kv
    rw [Json.finiteFloatsFields, ih, List.all_cons]

theorem all_congr_mem {α : Type} {f g : α → Bool} {l : List α} (h : ∀ a ∈ l, f a = g a) :
    l.all f = l.all g := by
  rw [Bool.eq_iff_iff, List.all_eq_true, List.all_eq_true]
  exact forall₂_congr fun a ha => by rw [h a ha]

theorem finiteFloats_sorted : (sorted j).finiteFloats = j.finiteFloats := by
  induction j using Json.induct with
  | arr xs ih  =>
    rw [sorted_arr, Json.finiteFloats, Json.finiteFloats, finiteFloatsList_eq, finiteFloatsList_eq,
      List.all_map]
    exact all_congr_mem ih
  | obj kvs ih =>
    rw [sorted_obj, Json.finiteFloats, Json.finiteFloats, finiteFloatsFields_eq,
      finiteFloatsFields_eq, Keys.sort, (List.perm_insertionSort _ _).all_eq, List.all_map]
    exact all_congr_mem ih
  | _          => rfl

theorem canonical_json_sorted : canonical_json D (sorted j) = canonical_json D j := by
  unfold canonical_json
  rw [finiteFloats_sorted, dumps_sorted]

-- Two documents that only differ in the order of keys.
theorem canonical_json_congr (h : sorted j = sorted j') : canonical_json D j = canonical_json D j' := by
  rw [← canonical_json_sorted, h, canonical_json_sorted]

theorem element_map {i : Int} : element (xs.map sorted) i = (element xs i).map sorted := by
  unfold element
  rw [List.length_map]
  split
  · exact List.getElem?_map ..
  · split
    · exact List.getElem?_map ..
    · rfl

theorem follow_sorted {int : String → Option Int} {token : String} :
    follow int (sorted j) token = (follow int j token).map sorted := by
  cases j with
  | arr xs  =>
    rw [sorted_arr, follow, follow]
    cases int token with
    | none   => rfl
    | some i => exact element_map
  | obj kvs => rw [sorted_obj, follow, follow, Keys.lookup_sort, Keys.lookup_map]
  | _       => rfl

theorem foldlM_follow_sorted {int : String → Option Int} {tokens : List String} :
    tokens.foldlM (follow int) (sorted j) = (tokens.foldlM (follow int) j).map sorted := by
  induction tokens generalizing j with
  | nil              => rfl
  | cons token tokens ih =>
    rw [List.foldlM_cons, List.foldlM_cons, follow_sorted]
    cases follow int j token with
    | none   => rfl
    | some v => exact ih

theorem _pointer_sorted {int : String → Option Int} {pointer : Option String} :
    _pointer int (sorted j) pointer = (_pointer int j pointer).map (Option.map sorted) := by
  unfold _pointer
  split
  case h_1 => rfl
  case h_2 =>
    split
    · rfl
    · split
      · rfl
      · exact congrArg Except.ok foldlM_follow_sorted

end

section

variable {L : Python} {v v' : Json} {e e' d d' : Option Json}

-- What a document and the same one in another order have in common.
theorem sorted_cases (h : sorted v = sorted v') :
    v = v' ∨ (∃ xs xs', v = .arr xs ∧ v' = .arr xs') ∨
      ∃ kvs kvs', v = .obj kvs ∧ v' = .obj kvs' ∧ (kvs = [] ↔ kvs' = []) := by
  cases v with
  | arr xs  =>
    cases v'
    case arr xs' => exact .inr <| .inl ⟨xs, xs', rfl, rfl⟩
    all_goals simp [sorted] at h
  | obj kvs =>
    cases v'
    case obj kvs' =>
      refine .inr <| .inr ⟨kvs, kvs', rfl, rfl, ?_⟩
      rw [sorted_obj, sorted_obj] at h
      have hnil := congrArg (· = []) (Json.obj.inj h)
      simpa using hnil
    all_goals simp [sorted] at h
  | null    => cases v' <;> simp_all [sorted]
  | bool b  => cases v' <;> simp_all [sorted]
  | int n   => cases v' <;> simp_all [sorted]
  | float x => cases v' <;> simp_all [sorted]
  | str s   => cases v' <;> simp_all [sorted]

theorem empty_iff (h : e.map sorted = e'.map sorted) :
    e ∈ [none, some .null, some (.obj [])] ↔ e' ∈ [none, some .null, some (.obj [])] := by
  cases e with
  | none   =>
    cases e' with
    | none   => exact Iff.rfl
    | some w => cases h
  | some v =>
    cases e' with
    | none   => cases h
    | some w =>
      obtain rfl | ⟨_, _, rfl, rfl⟩ | ⟨kvs, kvs', rfl, rfl, hnil⟩ := sorted_cases <| Option.some.inj h
      · exact Iff.rfl
      · simp
      · simpa using hnil

def labels : List String :=
  ["user_stated", "derived_from_trace", "approved", "inferred", "agent_output"]

-- A list or a dict is written with a bracket first.
theorem str_arr_not_mem {xs : List Json} : str L (.arr xs) ∉ labels := by
  have hlabels : ∀ l ∈ labels, l.toList.head? ≠ some '[' := by decide
  exact fun h => hlabels _ h <| by simp [str, String.toList_append]

theorem str_obj_not_mem {kvs : Fields} : str L (.obj kvs) ∉ labels := by
  have hlabels : ∀ l ∈ labels, l.toList.head? ≠ some '\x7b' := by decide
  exact fun h => hlabels _ h <| by simp [str, String.toList_append]

theorem not_approved {text : String} (h : text ∉ labels) :
    text ∉ ["user_stated", "derived_from_trace", "approved"] :=
  fun ht => h <| List.mem_append_left ["inferred", "agent_output"] ht

theorem not_inferred {text : String} (h : text ∉ labels) : text ∉ ["inferred", "agent_output"] :=
  fun ht => h <| List.mem_append_right ["user_stated", "derived_from_trace", "approved"] ht

-- A label is a scalar, which is written in one way.
theorem label_status_congr (he : e.map sorted = e'.map sorted) (hd : d.map sorted = d'.map sorted) :
    (_label_status L e d).toOption = (_label_status L e' d').toOption := by
  unfold _label_status
  by_cases hmem : e ∈ [none, some .null, some (.obj [])]
  case pos => rw [if_pos hmem, if_pos ((empty_iff he).mp hmem)]
  case neg =>
    rw [if_neg hmem, if_neg (mt (empty_iff he).mpr hmem)]
    cases d with
    | none   =>
      cases d' with
      | none   => rfl
      | some w => cases hd
    | some v =>
      cases d' with
      | none   => cases hd
      | some w =>
        obtain rfl | ⟨xs, xs', rfl, rfl⟩ | ⟨kvs, kvs', rfl, rfl, -⟩ := sorted_cases <| Option.some.inj hd
        · rfl
        · simp only [reduceCtorEq, if_false, if_neg (not_approved str_arr_not_mem),
            if_neg (not_inferred str_arr_not_mem)]
          rfl
        · simp only [reduceCtorEq, if_false, if_neg (not_approved str_obj_not_mem),
            if_neg (not_inferred str_obj_not_mem)]
          rfl

theorem encode_congr (h : sorted v = sorted v') : encode L v = encode L v' := by
  unfold encode
  rw [canonical_json_congr h]

theorem digest_congr (h : sorted v = sorted v') : digest L v = digest L v' :=
  congrArg (Except.map _) <| encode_congr h

theorem clone_congr (h : sorted v = sorted v') : _clone L v = _clone L v' := by
  unfold _clone
  rw [encode_congr h]

theorem sorted_wrap_expected (e : Option Json) (tag : Option String) :
    sorted (_wrap_expected e tag) = sorted (_wrap_expected (e.map sorted) tag) := by
  have hone (value : Json) (t : String) :
      sorted (.obj [("tag", .str t), ("value", value)]) =
        sorted (.obj [("tag", .str t), ("value", sorted value)]) := by
    simp [sorted_obj]
  have hall (wrap : Json → Json) (h : ∀ v, sorted (wrap v) = sorted (wrap (sorted v))) (kvs : Fields) :
      sorted (.obj (kvs.map (Prod.map id wrap))) =
        sorted (.obj ((Keys.sort (kvs.map (Prod.map id sorted))).map (Prod.map id wrap))) := by
    have hwrap : (sorted ∘ wrap) ∘ sorted = sorted ∘ wrap := funext fun v => (h v).symm
    rw [sorted_obj, sorted_obj, List.map_map, List.map_map, Prod.map_comp_map, Function.id_comp,
      ← Keys.sort_map, Keys.sort_sort, List.map_map, Prod.map_comp_map, Function.id_comp, hwrap]
  cases e with
  | none   => rfl
  | some v =>
    cases v
    case obj kvs =>
      rw [Option.map_some, sorted_obj]
      exact hall _ (fun v => hone v _) kvs
    case arr xs  =>
      rw [Option.map_some, sorted_arr]
      refine (hall _ (fun v => hone v _) [("value", .arr xs)]).trans ?_
      simp only [List.map_cons, Prod.map, sorted_arr]
      rfl
    all_goals rfl

theorem wrap_expected_congr (h : e.map sorted = e'.map sorted) (tag : Option String) :
    sorted (_wrap_expected e tag) = sorted (_wrap_expected e' tag) := by
  rw [sorted_wrap_expected, h, ← sorted_wrap_expected]

theorem field_state_congr (h : e.map sorted = e'.map sorted) : _field_state e = _field_state e' := by
  cases e with
  | none   =>
    cases e' with
    | none   => rfl
    | some w => cases h
  | some v =>
    cases e' with
    | none   => cases h
    | some w =>
      obtain rfl | ⟨_, _, rfl, rfl⟩ | ⟨_, _, rfl, rfl, -⟩ := sorted_cases <| Option.some.inj h
      all_goals rfl

variable {doc doc' : Fields} {mapping : Fields} {row row' : Row}

theorem mapped_sorted (h : sorted (.obj doc) = .obj doc') (selector : Option Json) :
    _mapped L doc' selector false = (_mapped L doc selector false).map (Option.map sorted) := by
  unfold _mapped
  simp only [Bool.false_eq_true, if_false]
  split
  case h_1 | h_2 => rfl
  case h_3 s     =>
    split
    case isTrue  =>
      rw [← h, _pointer_sorted]
      cases _pointer L.int (.obj doc) (some s) <;> rfl
    case isFalse => rfl
  case h_4       => rfl

theorem mapped_congr (h : sorted (.obj doc) = sorted (.obj doc')) (selector : Option Json) :
    (_mapped L doc selector false).map (Option.map sorted) =
      (_mapped L doc' selector false).map (Option.map sorted) := by
  rw [← mapped_sorted sorted_obj, ← mapped_sorted (h.symm.trans sorted_obj)]

def Parts.sorted (p : Parts) : Parts where
  input         := p.input.map Datasets.sorted
  expected      := p.expected.map Datasets.sorted
  declared      := p.declared.map Datasets.sorted
  tags          := p.tags.map Datasets.sorted
  split         := p.split.map Datasets.sorted
  fixture_state := p.fixture_state.map Datasets.sorted

theorem parts_congr (h : sorted (.obj row.document) = sorted (.obj row'.document))
    (hrow : row.csv = false) (hrow' : row'.csv = false) :
    (parts L row mapping).map Parts.sorted = (parts L row' mapping).map Parts.sorted := by
  have hm (selector : Option Json) := mapped_congr (L := L) h selector
  have hparts (row : Row) (hrow : row.csv = false) :
      (parts L row mapping).map Parts.sorted =
        let m (name : String) :=
          (_mapped L row.document (mapping.lookup name) false).map (Option.map Datasets.sorted)
        do return {
          input         := ← m "input"
          expected      := ← m "expected"
          declared      := ← m "label_status"
          tags          := ← m "tags"
          split         := ← m "split"
          fixture_state := ← m "fixture_state" } := by
    unfold parts
    rw [hrow]
    simp only [Bool.false_eq_true, if_false]
    -- The first selector that fails decides.
    cases _mapped L row.document (mapping.lookup "input") false with
    | error e => rfl
    | ok _    =>
      cases _mapped L row.document (mapping.lookup "expected") false with
      | error e => rfl
      | ok _    =>
        cases _mapped L row.document (mapping.lookup "label_status") false with
        | error e => rfl
        | ok _    =>
          cases _mapped L row.document (mapping.lookup "tags") false with
          | error e => rfl
          | ok _    =>
            cases _mapped L row.document (mapping.lookup "split") false with
            | error e => rfl
            | ok _    =>
              cases _mapped L row.document (mapping.lookup "fixture_state") false <;> rfl
  rw [hparts row hrow, hparts row' hrow']
  simp only [hm]

-- A case up to the order of keys, without the hash that its row number goes into.
def Case.plain (c : Case) : Case :=
  { c with
    metadata_hash := "",
    expected      := sorted c.expected,
    tags          := sorted c.tags,
    split         := sorted c.split,
    fixture_state := sorted c.fixture_state }

theorem toOption_map {α β : Type} {x : Except Error α} {g : α → β} :
    (x.map g).toOption = x.toOption.map g := by
  cases x <;> rfl

-- Steps that go on alike from results that are alike.
theorem bind_plain_congr {α β : Type} {x x' : Except Error α} {f f' : α → Except Error Case} (g : α → β)
    (hx : x.toOption.map g = x'.toOption.map g)
    (h : ∀ a a', g a = g a' → (f a).toOption.map Case.plain = (f' a').toOption.map Case.plain) :
    (x >>= f).toOption.map Case.plain = (x' >>= f').toOption.map Case.plain := by
  cases x with
  | error e =>
    cases x' with
    | error e' => rfl
    | ok a'    => cases hx
  | ok a    =>
    cases x' with
    | error e' => cases hx
    | ok a'    => exact h a a' <| Option.some.inj hx

theorem bind_plain_same {α : Type} {x : Except Error α} {f f' : α → Except Error Case}
    (h : ∀ a, (f a).toOption.map Case.plain = (f' a).toOption.map Case.plain) :
    (x >>= f).toOption.map Case.plain = (x >>= f').toOption.map Case.plain :=
  bind_plain_congr (fun a => a) rfl fun a _ ha => ha ▸ h a

theorem getD_congr (h : e.map sorted = e'.map sorted) : sorted (e.getD .null) = sorted (e'.getD .null) := by
  cases e with
  | none   =>
    cases e' with
    | none   => rfl
    | some w => cases h
  | some v =>
    cases e' with
    | none   => cases h
    | some w => exact Option.some.inj h

theorem given_tags_congr (h : e.map sorted = e'.map sorted) :
    sorted (given_tags e) = sorted (given_tags e') := by
  cases e with
  | none   =>
    cases e' with
    | none   => rfl
    | some w => cases h
  | some v =>
    cases e' with
    | none   => cases h
    | some w =>
      have hvw := Option.some.inj h
      obtain rfl | ⟨_, _, rfl, rfl⟩ | ⟨_, _, rfl, rfl, -⟩ := sorted_cases hvw
      · rfl
      · exact hvw
      · exact hvw

theorem input_cases (h : e.map sorted = e'.map sorted) :
    (∃ kvs kvs', e = some (.obj kvs) ∧ e' = some (.obj kvs') ∧ sorted (.obj kvs) = sorted (.obj kvs')) ∨
    ((∀ kvs, e ≠ some (.obj kvs)) ∧ ∀ kvs, e' ≠ some (.obj kvs)) := by
  cases e with
  | none   =>
    cases e' with
    | none   => exact .inr ⟨by simp, by simp⟩
    | some w => cases h
  | some v =>
    cases e' with
    | none   => cases h
    | some w =>
      have hvw := Option.some.inj h
      obtain rfl | ⟨xs, xs', rfl, rfl⟩ | ⟨kvs, kvs', rfl, rfl, -⟩ := sorted_cases hvw
      · by_cases hobj : ∃ kvs, v = .obj kvs
        · obtain ⟨kvs, rfl⟩ := hobj
          exact .inl ⟨kvs, kvs, rfl, rfl, rfl⟩
        · exact .inr ⟨fun kvs hv => hobj ⟨kvs, Option.some.inj hv⟩,
            fun kvs hv => hobj ⟨kvs, Option.some.inj hv⟩⟩
      · exact .inr ⟨by simp, by simp⟩
      · exact .inl ⟨kvs, kvs', rfl, rfl, hvw⟩

theorem case_of_congr {n : ℕ} {id : String} {p p' : Parts} (h : p.sorted = p'.sorted) :
    (case_of L n id p).toOption.map Case.plain = (case_of L n id p').toOption.map Case.plain := by
  obtain ⟨hinput, hexpected, hdeclared, htags, hsplit, hfixture⟩ := Parts.mk.inj h
  have htags' : sorted (given_tags p.tags) = sorted (given_tags p'.tags) := given_tags_congr htags
  have hsplit' : sorted (p.split.getD .null) = sorted (p'.split.getD .null) := getD_congr hsplit
  have hfixture' : sorted (p.fixture_state.getD .null) = sorted (p'.fixture_state.getD .null) :=
    getD_congr hfixture
  have hmetadata : sorted (metadata_of n p) = sorted (metadata_of n p') := by
    simp only [metadata_of, sorted_obj, List.map_cons, Prod.map, htags', hsplit', hfixture']
  unfold case_of
  obtain ⟨kvs, kvs', hi, hi', hkvs⟩ | ⟨hi, hi'⟩ := input_cases hinput
  case inr =>
    split
    case h_1 kvs hk => exact absurd hk <| hi kvs
    case h_2        => rfl
  case inl =>
    rw [hi, hi']
    dsimp only
    rw [encode_congr hkvs, digest_congr hkvs, clone_congr hkvs]
    refine bind_plain_same fun encoded => ?_
    split
    case isTrue  => rfl
    case isFalse =>
      refine bind_plain_congr (fun x => x) (congrArg _ <| label_status_congr hexpected hdeclared) ?_
      rintro ⟨status, provenance⟩ _ rfl
      have hwrap := wrap_expected_congr hexpected provenance
      dsimp only
      rw [digest_congr hwrap, digest_congr hmetadata]
      refine bind_plain_same fun case_key => ?_
      refine bind_plain_same fun input_hash => ?_
      refine bind_plain_same fun reference_hash => ?_
      refine bind_plain_same fun metadata_hash => ?_
      refine bind_plain_same fun input => ?_
      refine bind_plain_same fun agent_request => ?_
      simp only [pure, Except.pure, Except.toOption, Option.map_some, Case.plain, hwrap, htags',
        hsplit', hfixture', field_state_congr hexpected]

-- Two rows make the same case if their ids are written alike.
theorem case_congr (hid : (case_id L row mapping).toOption = (case_id L row' mapping).toOption)
    (h : sorted (.obj row.document) = sorted (.obj row'.document))
    (hnumber : row.row_number = row'.row_number) (hrow : row.csv = false) (hrow' : row'.csv = false) :
    (_case L row mapping).toOption.map Case.plain = (_case L row' mapping).toOption.map Case.plain := by
  refine bind_plain_congr (fun x => x) (congrArg _ hid) ?_
  rintro id _ rfl
  refine bind_plain_congr Parts.sorted ?_ fun p p' hp => hnumber ▸ case_of_congr hp
  rw [← toOption_map, ← toOption_map, parts_congr h hrow hrow']

end

end Datasets
