import Traceline.Sources.Archive

namespace Sources

variable {u : Unicode} {limits : ArchiveLimits} {zip : ZipFile} {sha256 : Bytes → String}
variable {name name' : List Char} {info : ZipInfo} {infolist : List ZipInfo} {data : Bytes}
variable {inspected : InspectedArchive} {seen seen' : Examined}
variable {files : List (List Char × Bytes)}

theorem require_eq_ok_iff {holds : Bool} {code message : String} :
    require holds code message = .ok () ↔ holds := by
  cases holds <;> simp [require, pure, Except.pure, throw, throwThe, MonadExceptOf.throw]

-- The name under which a member is listed.
def listed (u : Unicode) (info : ZipInfo) : List Char :=
  (normalized u info.filename).rdropWhile (· == '/')

-- What `_safe_name` accepts.
structure Safe (u : Unicode) (limits : ArchiveLimits) (name : List Char) : Prop where
  relative : ¬ absolute_name name
  root     : (PurePosixPath.parse (normalized u name)).root = []
  parts    : ∀ s ∈ PurePosixPath.segments (normalized u name), s ≠ ['.', '.']
  depth    : (PurePosixPath.segments (normalized u name)).length ≤ limits.max_path_depth

theorem _safe_name_eq_ok (h : _safe_name u limits name = .ok name') :
    Safe u limits name ∧ name' = (normalized u name).rdropWhile (· == '/') := by
  rw [_safe_name] at h
  split at h
  case isTrue          => cases h
  case isFalse hrelative =>
    dsimp only at h
    split at h
    case isTrue         => cases h
    case isFalse hparts =>
      rw [not_or, not_or, not_lt] at hparts
      obtain ⟨hroot, hparts, hdepth⟩ := hparts
      have hroot : (PurePosixPath.parse (normalized u name)).root = [] := by
        simpa [PurePosixPath.is_absolute] using hroot
      rw [PurePosixPath.parts, if_pos hroot] at hparts hdepth
      refine ⟨⟨hrelative, hroot, fun s hs heq => hparts ?_, hdepth⟩, (Except.ok.inj h).symm⟩
      exact List.any_eq_true.mpr ⟨s, hs, by rw [heq]; rfl⟩

-- A name that is accepted keeps something when its trailing slashes are dropped.
theorem listed_ne_nil (h : ¬ absolute_name info.filename) :
    ∃ c s, c ≠ '/' ∧ normalized u info.filename = c :: s := by
  cases hname : info.filename with
  | nil         => exact absurd (by rw [hname]; rfl) h
  | cons c name =>
    have hc : c ≠ '/' := by
      rintro rfl
      exact h <| by simp [hname, absolute_name]
    have hc' : c ≠ '\\' := by
      rintro rfl
      exact h <| by simp [hname, absolute_name]
    rw [normalized, forward, List.map_cons, if_neg hc']
    obtain ⟨c', s', hc', hnfc⟩ := u.nfc_head c (name.map _) hc
    exact ⟨c', s', hc', hnfc⟩

theorem rdropWhile_cons {c : Char} {s : List Char} (h : c ≠ '/') :
    ∃ s', (c :: s).rdropWhile (· == '/') = c :: s' := by
  induction s using List.reverseRecOn with
  | nil => exact ⟨[], by simp [List.rdropWhile, h]⟩
  | append_singleton s c' ih =>
    rw [← List.cons_append, List.rdropWhile_concat]
    split
    case isTrue  => exact ih
    case isFalse => exact ⟨s ++ [c'], rfl⟩

theorem listed_cons (h : ¬ absolute_name info.filename) : ∃ c s, c ≠ '/' ∧ listed u info = c :: s := by
  obtain ⟨c, s, hc, hnormalized⟩ := listed_ne_nil h
  obtain ⟨s', hs'⟩ := rdropWhile_cons (s := s) hc
  exact ⟨c, s', hc, by rw [listed, hnormalized, hs']⟩

theorem add_eq_ok (h : seen.add u limits name info = .ok seen') :
    folded u name ∉ seen.names ∧ seen'.names = folded u name :: seen.names ∧
      seen'.candidates = seen.candidates ++ [(name, info)] := by
  simp only [Examined.add, Except.bind_eq_ok_iff] at h
  obtain ⟨_, -, _, hnames, _, -, _, -, _, -, _, -, h⟩ := h
  have hseen := Except.ok.inj h
  refine ⟨?_, by rw [← hseen], by rw [← hseen]⟩
  simpa using require_eq_ok_iff.mp hnames

-- No member is passed over: what looks like the branch for directories is never taken.
theorem examine_eq_ok (h : examine u limits seen info = .ok seen') :
    Safe u limits info.filename ∧ folded u (listed u info) ∉ seen.names ∧
      seen'.names = folded u (listed u info) :: seen.names ∧
      seen'.candidates = seen.candidates ++ [(listed u info, info)] := by
  simp only [examine, Except.bind_eq_ok_iff] at h
  obtain ⟨_, -, name, hname, h⟩ := h
  obtain ⟨hsafe, hlisted⟩ := _safe_name_eq_ok hname
  obtain ⟨c, s, -, hcons⟩ := listed_cons (u := u) hsafe.relative
  have hlisted : name = listed u info := hlisted
  rw [if_neg (by rw [hlisted, hcons]; exact List.cons_ne_nil _ _), hlisted] at h
  exact ⟨hsafe, add_eq_ok h⟩

-- What is known of the files that are listed for the members.
structure Listing (u : Unicode) (limits : ArchiveLimits) (infolist : List ZipInfo)
    (files : List (List Char × Bytes)) : Prop where
  names  : files.map Prod.fst = infolist.map (listed u)
  sizes  : files.map (·.2.length) = infolist.map ZipInfo.file_size
  folded : (infolist.map fun info => folded u (listed u info)).Nodup
  safe   : ∀ info ∈ infolist, Safe u limits info.filename

theorem examined (h : infolist.foldlM (examine u limits) seen = .ok seen')
    (hnodup : seen.names.Nodup) :
    seen'.candidates = seen.candidates ++ infolist.map (fun info => (listed u info, info)) ∧
      ((infolist.map fun info => folded u (listed u info)).reverse ++ seen.names).Nodup ∧
      ∀ info ∈ infolist, Safe u limits info.filename := by
  induction infolist generalizing seen with
  | nil =>
    cases h
    exact ⟨(List.append_nil _).symm, hnodup, List.forall_mem_nil _⟩
  | cons info infolist ih =>
    rw [List.foldlM_cons, Except.bind_eq_ok_iff] at h
    obtain ⟨seen₁, hinfo, h⟩ := h
    obtain ⟨hsafe, hfresh, hnames, hcandidates⟩ := examine_eq_ok hinfo
    have hnodup₁ : seen₁.names.Nodup := hnames ▸ List.nodup_cons.mpr ⟨hfresh, hnodup⟩
    obtain ⟨hrest, hfolded, hall⟩ := ih h hnodup₁
    refine ⟨?_, ?_, List.forall_mem_cons.mpr ⟨hsafe, hall⟩⟩
    · rw [hrest, hcandidates, List.map_cons, List.append_assoc, List.singleton_append]
    · rwa [List.map_cons, List.reverse_cons, List.append_assoc, List.singleton_append, ← hnames]

theorem read_member_eq_ok {candidate : List Char × ZipInfo} {file : List Char × Bytes}
    (h : read_member limits candidate = .ok file) :
    file.1 = candidate.1 ∧ file.2.length = candidate.2.file_size := by
  simp only [read_member, Except.bind_eq_ok_iff] at h
  obtain ⟨content, -, _, hsize, h⟩ := h
  have hsize := require_eq_ok_iff.mp hsize
  rw [Bool.and_eq_true, decide_eq_true_eq] at hsize
  have hfile := Except.ok.inj h
  exact ⟨by rw [← hfile], by rw [← hfile]; exact hsize.left⟩

theorem inspect_zip_eq_ok (h : inspect_zip u limits zip sha256 data = .ok inspected)
    (hzip : zip data = .ok infolist) : Listing u limits infolist inspected.files ∧
      inspected.manifest.content_digest = sha256 (hashed inspected.files) := by
  simp only [inspect_zip, open_zip, hzip, Except.bind_eq_ok_iff] at h
  obtain ⟨_, -, _, -, infolist', hinfolist, seen, hseen, files, hfiles, h⟩ := h
  have hinspected := Except.ok.inj h
  have hinfolist : infolist = infolist' := Except.ok.inj hinfolist
  rw [← hinfolist] at hseen
  obtain ⟨hcandidates, hfolded, hsafe⟩ := examined hseen List.nodup_nil
  rw [List.append_nil, List.nodup_reverse] at hfolded
  rw [List.nil_append] at hcandidates
  rw [hcandidates, Except.mapM_eq_ok_iff, List.forall₂_map_left_iff] at hfiles
  rw [← hinspected]
  refine ⟨⟨?_, ?_, hfolded, hsafe⟩, rfl⟩
  · exact (hfiles.map_eq fun _ _ h => (read_member_eq_ok h).left.symm).symm
  · exact (hfiles.map_eq fun _ _ h => (read_member_eq_ok h).right.symm).symm

-- Spellings that fold to one another denote one path.
def destination (u : Unicode) (name : List Char) : List (List Char) :=
  PurePosixPath.segments (folded u name)

-- Where the file is written that is listed under a name.
def place (root : List (List Char)) (name : List Char) : List (List Char) :=
  let path := PurePosixPath.parse name
  Paths.resolve ['.', '.'] (if path.is_absolute then [path.root] else root) path.tail

def ZipInfo.is_dir (info : ZipInfo) : Prop :=
  info.filename.getLast? = some '/' ∨ info.kind = S_IFDIR

instance : Decidable info.is_dir :=
  inferInstanceAs (Decidable (_ ∨ _))

structure Apart (u : Unicode) (infolist : List ZipInfo) (files : List (List Char × Bytes)) :
    Prop where
  distinct    : (files.map fun f => destination u f.1).Nodup
  prefixes    : ∀ f ∈ files, ∀ g ∈ files,
    destination u f.1 <+: destination u g.1 → destination u f.1 = destination u g.1
  directories : ∀ info ∈ infolist, info.is_dir → ∀ f ∈ files, f.1 ≠ listed u info
  inside      : ∀ f ∈ files, ∀ root, root <+: place root f.1

def Redundant (u : Unicode) (info : ZipInfo) : Prop :=
  Paths.Redundant '/' ['.'] (folded u (listed u info))

instance : Decidable (Redundant u info) :=
  inferInstanceAs (Decidable (Paths.Redundant ..))

-- What the code does not look at in the names of an archive.
structure Plain (u : Unicode) (infolist : List ZipInfo) : Prop where
  directories : ∀ info ∈ infolist, ¬ info.is_dir
  redundant   : infolist.Pairwise fun a b => Redundant u a ∨ Redundant u b →
    destination u (listed u a) ≠ destination u (listed u b)
  beneath     : ∀ a ∈ infolist, ∀ b ∈ infolist,
    destination u (listed u a) <+: destination u (listed u b) →
      destination u (listed u a) = destination u (listed u b)

-- Names without segments that lead nowhere are told apart by the check for collisions.
theorem destination_ne (h : folded u name ≠ folded u name')
    (hplain : ¬ Paths.Redundant '/' ['.'] (folded u name))
    (hplain' : ¬ Paths.Redundant '/' ['.'] (folded u name')) :
    destination u name ≠ destination u name' :=
  fun hsegments => h <| Paths.eq_of_segments_eq hplain hplain' hsegments

theorem Safe.inside {root : List (List Char)} (h : Safe u limits info.filename) :
    root <+: place root (listed u info) := by
  obtain ⟨c, s, hc, hlisted⟩ := listed_cons (u := u) h.relative
  have hroot : (PurePosixPath.parse (listed u info)).root = [] := by
    simp [PurePosixPath.parse, hlisted, hc.symm]
  have htail : (PurePosixPath.parse (listed u info)).tail =
      PurePosixPath.segments (normalized u info.filename) :=
    Paths.segments_rdropWhile
  have hup : ['.', '.'] ∉ PurePosixPath.segments (normalized u info.filename) :=
    fun hup => h.parts _ hup rfl
  rw [place, PurePosixPath.is_absolute, hroot, htail, Paths.resolve_eq hup]
  exact List.prefix_append root _

namespace Listing

variable (l : Listing u limits infolist files)

include l

theorem destinations : (files.map fun f => destination u f.1) =
    infolist.map fun info => destination u (listed u info) := by
  have h := congrArg (List.map (destination u)) l.names
  rwa [List.map_map, List.map_map] at h

theorem exists_member {f : List Char × Bytes} (hf : f ∈ files) :
    ∃ info ∈ infolist, f.1 = listed u info := by
  have h := l.names ▸ List.mem_map_of_mem (f := Prod.fst) hf
  obtain ⟨info, hinfo, heq⟩ := List.mem_map.mp h
  exact ⟨info, hinfo, heq.symm⟩

theorem exists_file (h : info ∈ infolist) : ∃ f ∈ files, f.1 = listed u info := by
  have h := l.names.symm ▸ List.mem_map_of_mem (f := listed u) h
  exact List.mem_map.mp h

theorem distinct (h : Plain u infolist) : (files.map fun f => destination u f.1).Nodup := by
  rw [l.destinations]
  have hfolded := List.pairwise_map.mp l.folded
  refine List.pairwise_map.mpr <| hfolded.imp₂ (fun a b hne hredundant => ?_) h.redundant
  by_cases hspelled : Redundant u a ∨ Redundant u b
  case pos => exact hredundant hspelled
  case neg =>
    rw [not_or] at hspelled
    exact destination_ne hne hspelled.left hspelled.right

theorem apart_iff : Apart u infolist files ↔ Plain u infolist := by
  constructor
  · intro h
    refine ⟨fun info hinfo hdir => ?_, ?_, fun a ha b hb hprefix => ?_⟩
    · obtain ⟨f, hf, hname⟩ := l.exists_file hinfo
      exact h.directories info hinfo hdir f hf hname
    · have hdistinct := List.pairwise_map.mp (l.destinations ▸ h.distinct)
      refine hdistinct.imp ?_
      exact fun hne _ => hne
    · obtain ⟨f, hf, hfa⟩ := l.exists_file ha
      obtain ⟨g, hg, hgb⟩ := l.exists_file hb
      rw [← hfa, ← hgb] at hprefix ⊢
      exact h.prefixes f hf g hg hprefix
  · intro h
    refine ⟨l.distinct h, fun f hf g hg hprefix => ?_, fun info hinfo hdir => ?_, ?_⟩
    · obtain ⟨a, ha, hfa⟩ := l.exists_member hf
      obtain ⟨b, hb, hgb⟩ := l.exists_member hg
      rw [hfa, hgb] at hprefix ⊢
      exact h.beneath a ha b hb hprefix
    · exact absurd hdir <| h.directories info hinfo
    · intro f hf root
      obtain ⟨info, hinfo, hname⟩ := l.exists_member hf
      exact hname ▸ (l.safe info hinfo).inside

end Listing

theorem paths_apart_iff (hzip : zip data = .ok infolist)
    (h : inspect_zip u limits zip sha256 data = .ok inspected) :
    Apart u infolist inspected.files ↔ Plain u infolist :=
  (inspect_zip_eq_ok h hzip).left.apart_iff

namespace Sample

def ascii : Unicode where
  nfc      := id
  casefold := List.map Char.toLower
  lower    := List.map Char.toLower
  nfc_nul  := fun _ => id
  nfc_head := fun c s hc => ⟨c, s, hc, rfl⟩

def member (filename : List Char) (content : Bytes) : ZipInfo where
  filename
  flag_bits     := 0
  external_attr := 0o100644 <<< 16
  file_size     := content.length
  compress_size := content.length
  read _        := .ok content

-- An archive that is read as these members whatever its bytes are.
def archive (members : List (List Char × Bytes)) : ZipFile :=
  fun _ => .ok <| members.map fun m => member m.1 m.2

def result (members : List (List Char × Bytes)) : InspectedArchive where
  files    := members
  manifest := {
    file_count     := members.length
    expanded_bytes := (members.map (·.2.length)).foldr (· + ·) 0
    content_digest := ""
  }

def apart : List (List Char × Bytes) :=
  [(['a', '/', 'b'], [1]), (['a', '/', 'c'], [2])]

def doubled : List (List Char × Bytes) :=
  [(['a', '/', 'b'], [1]), (['a', '/', '/', 'b'], [2])]

theorem inspect_apart :
    inspect_zip ascii {} (archive apart) (fun _ => "") [80] = .ok (result apart) := by
  decide

theorem inspect_doubled :
    inspect_zip ascii {} (archive doubled) (fun _ => "") [80] = .ok (result doubled) := by
  decide

end Sample

theorem paths_apart_distinct : Apart Sample.ascii
    (Sample.apart.map fun m => Sample.member m.1 m.2) (Sample.result Sample.apart).files := by
  refine (paths_apart_iff rfl Sample.inspect_apart).mpr ⟨by decide, by decide, by decide⟩

-- A doubled separator spells the path of another member.
theorem not_paths_apart : ¬ ∀ (u : Unicode) (limits : ArchiveLimits) (zip : ZipFile)
    (sha256 : Bytes → String) (data : Bytes) (infolist : List ZipInfo)
    (inspected : InspectedArchive), zip data = .ok infolist →
      inspect_zip u limits zip sha256 data = .ok inspected →
        Apart u infolist inspected.files := by
  intro h
  have hapart := h Sample.ascii {} (Sample.archive Sample.doubled) (fun _ => "") [80] _ _ rfl
    Sample.inspect_doubled
  exact absurd hapart.distinct (by decide)

end Sources
