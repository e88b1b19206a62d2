import Traceline.Sources.Theorems.Paths

namespace Sources

variable {u : Unicode} {limits limits' : ArchiveLimits} {zip : ZipFile} {sha256 : Bytes → String}
variable {infolist infolist' : List ZipInfo} {data data' : Bytes} {a b : InspectedArchive}
variable {files files' : List (List Char × Bytes)}

section Encoding

variable {c : Char} {name name' : List Char}

theorem ofNat_ne_zero {n : ℕ} (h : n % 256 ≠ 0) : UInt8.ofNat n ≠ 0 := by
  intro heq
  have hnat := congrArg UInt8.toNat heq
  rw [UInt8.toNat_ofNat'] at hnat
  exact h hnat

-- Only NUL is written with a zero byte.
theorem zero_not_mem_encode_char (h : c ≠ '\x00') : 0 ∉ String.utf8EncodeChar c := by
  have hc : c.val.toNat ≠ 0 := fun heq => h <| Char.ext <| UInt32.toNat_inj.mp heq
  intro hzero
  rw [String.utf8EncodeChar] at hzero
  split at hzero
  case isTrue hle =>
    rw [List.mem_singleton] at hzero
    exact ofNat_ne_zero (by omega) hzero.symm
  case isFalse =>
    split at hzero
    case isTrue =>
      simp only [List.mem_cons, List.not_mem_nil, or_false] at hzero
      rcases hzero with hzero | hzero <;> exact ofNat_ne_zero (by omega) hzero.symm
    case isFalse =>
      split at hzero
      case isTrue =>
        simp only [List.mem_cons, List.not_mem_nil, or_false] at hzero
        rcases hzero with hzero | hzero | hzero <;> exact ofNat_ne_zero (by omega) hzero.symm
      case isFalse =>
        simp only [List.mem_cons, List.not_mem_nil, or_false] at hzero
        rcases hzero with hzero | hzero | hzero | hzero <;>
          exact ofNat_ne_zero (by omega) hzero.symm

theorem zero_not_mem_encode (h : '\x00' ∉ name) : 0 ∉ encode name := by
  intro hzero
  obtain ⟨c, hc, hzero⟩ := List.mem_flatMap.mp hzero
  exact zero_not_mem_encode_char (fun heq => h <| heq ▸ hc) hzero

theorem encode_injective : Function.Injective encode := by
  intro name name' heq
  have hbytes : name.utf8Encode = name'.utf8Encode := congrArg List.toByteArray heq
  rw [← String.toByteArray_ofList, ← String.toByteArray_ofList, String.toByteArray_inj] at hbytes
  exact String.ofList_inj.mp hbytes

end Encoding

-- The records that are hashed for the files.
def records (files : List (List Char × Bytes)) : List (Bytes × Bytes) :=
  files.map fun f => (encode f.1, f.2)

theorem records_injective : Function.Injective records :=
  List.map_injective_iff.mpr fun f g heq => by
    rw [Prod.mk.injEq] at heq
    exact Prod.ext (encode_injective heq.left) heq.right

theorem mem_records_iff (h : ∀ f, f ∈ files ↔ f ∈ files') (r : Bytes × Bytes) :
    r ∈ records files ↔ r ∈ records files' := by
  rw [records, records, List.mem_map, List.mem_map]
  exact exists_congr fun f => and_congr_left fun _ => h f

theorem Safe.nul_not_mem {info : ZipInfo} (h : Safe u limits info.filename) :
    '\x00' ∉ listed u info := by
  have hname : '\x00' ∉ info.filename := by
    intro hnul
    exact h.relative <| by simp [absolute_name, hnul]
  have hforward : '\x00' ∉ forward info.filename := by
    intro hnul
    obtain ⟨c, hc, heq⟩ := List.mem_map.mp hnul
    split at heq
    · cases heq
    · exact hname <| heq ▸ hc
  exact fun hnul => u.nfc_nul _ hforward <| (List.rdropWhile_prefix _ _).subset hnul

namespace Listing

variable (l : Listing u limits infolist files)

include l

theorem zero_not_mem : ∀ r ∈ records files, 0 ∉ r.1 := by
  intro r hr
  obtain ⟨f, hf, heq⟩ := List.mem_map.mp hr
  obtain ⟨info, hinfo, hname⟩ := l.exists_member hf
  rw [← heq, hname]
  exact zero_not_mem_encode (l.safe info hinfo).nul_not_mem

theorem nodup_keys : ((records files).map Prod.fst).Nodup := by
  have hkeys : (records files).map Prod.fst = (files.map Prod.fst).map encode := by
    rw [records, List.map_map, List.map_map]
    rfl
  have hnames : (infolist.map (listed u)).Nodup := by
    refine List.Nodup.of_map (Sources.folded u) ?_
    rw [List.map_map]
    exact l.folded
  rw [hkeys, l.names]
  exact hnames.map encode_injective

theorem lengths : (records files).map (·.2.length) = infolist.map ZipInfo.file_size := by
  rw [records, List.map_map]
  exact l.sizes

variable (l' : Listing u limits' infolist' files')

include l'

theorem files_eq_of_sizes (hhashed : hashed files = hashed files')
    (hsizes : infolist.map ZipInfo.file_size = infolist'.map ZipInfo.file_size) :
    files = files' :=
  records_injective <| Framing.eq_of_lengths l.zero_not_mem l'.zero_not_mem
    (by rw [l.lengths, l'.lengths, hsizes]) hhashed

theorem files_eq_of_mem (hhashed : hashed files = hashed files')
    (hmem : ∀ f, f ∈ files ↔ f ∈ files') : files = files' :=
  records_injective <| Framing.eq_of_mem_iff l.zero_not_mem l'.zero_not_mem l.nodup_keys
    l'.nodup_keys (mem_records_iff hmem) hhashed

end Listing

structure Identified (a b : InspectedArchive) : Prop where
  content : a.manifest.content_digest = b.manifest.content_digest →
    ∀ f, f ∈ a.files ↔ f ∈ b.files
  staged  : ∀ artifact_root workspace_id version_id version_id',
    source_dir artifact_root workspace_id version_id a =
        source_dir artifact_root workspace_id version_id' b →
      ∀ f, f ∈ a.files ↔ f ∈ b.files

theorem content_digest_of_source_dir {artifact_root : List String}
    {workspace_id version_id version_id' : String}
    (h : source_dir artifact_root workspace_id version_id a =
      source_dir artifact_root workspace_id version_id' b) :
    a.manifest.content_digest = b.manifest.content_digest := by
  have h := List.append_cancel_left h
  simp only [List.cons.injEq] at h
  exact h.right.right.right.right.right.left

theorem identified_iff : Identified a b ↔
    (a.manifest.content_digest = b.manifest.content_digest → ∀ f, f ∈ a.files ↔ f ∈ b.files) :=
  ⟨Identified.content, fun h => ⟨h, fun _ _ _ _ hdir => h <| content_digest_of_source_dir hdir⟩⟩

-- What is hashed does not say where a file ends: the sizes of the members do.
theorem content_identified_iff (hzip : zip data = .ok infolist) (hzip' : zip data' = .ok infolist')
    (h : inspect_zip u limits zip sha256 data = .ok a)
    (h' : inspect_zip u limits' zip sha256 data' = .ok b)
    (hsha : sha256 (hashed a.files) = sha256 (hashed b.files) → hashed a.files = hashed b.files) :
    Identified a b ↔ (hashed a.files = hashed b.files →
      infolist.map ZipInfo.file_size = infolist'.map ZipInfo.file_size) := by
  obtain ⟨l, hdigest⟩ := inspect_zip_eq_ok h hzip
  obtain ⟨l', hdigest'⟩ := inspect_zip_eq_ok h' hzip'
  rw [identified_iff, hdigest, hdigest']
  constructor
  · intro hcontent hhashed
    have hfiles := l.files_eq_of_mem l' hhashed <| hcontent <| congrArg sha256 hhashed
    rw [← l.sizes, ← l'.sizes, hfiles]
  · intro hsizes hequal f
    have hhashed := hsha hequal
    rw [l.files_eq_of_sizes l' hhashed <| hsizes hhashed]

namespace Sample

-- A reader of three archives, the last of them `apart`.
def either (members members' : List (List Char × Bytes)) : ZipFile :=
  fun data => if data = [80] then archive members data
    else if data = [81] then archive members' data
    else archive apart data

-- A hash that keeps all that it is given.
def spell (bytes : Bytes) : String :=
  String.ofList <| bytes.map fun b => Char.ofNat b.toNat

def pair : List (List Char × Bytes) :=
  [(['a'], [120]), (['b'], [121])]

def recut : List (List Char × Bytes) :=
  [(['a'], []), (['x', 'b'], [121])]

def digested (sha256 : Bytes → String) (members : List (List Char × Bytes)) : InspectedArchive where
  files    := members
  manifest := { (result members).manifest with content_digest := sha256 (hashed members) }

theorem inspect_pair : inspect_zip ascii {} (either pair recut) sha256 [80] =
    .ok (digested sha256 pair) :=
  rfl

theorem inspect_recut : inspect_zip ascii {} (either pair recut) sha256 [81] =
    .ok (digested sha256 recut) :=
  rfl

theorem inspect_either : inspect_zip ascii {} (either pair recut) sha256 [82] =
    .ok (digested sha256 apart) :=
  rfl

end Sample

theorem content_identified_pair : Identified
    (Sample.digested Sample.spell Sample.pair) (Sample.digested Sample.spell Sample.apart) :=
  (content_identified_iff rfl rfl (@Sample.inspect_pair Sample.spell)
    (@Sample.inspect_either Sample.spell) (by decide)).mpr (by decide)

-- The body of one archive ends with what is the name of a member in the other.
theorem not_content_identified : ¬ ∀ (u : Unicode) (limits : ArchiveLimits) (zip : ZipFile)
    (sha256 : Bytes → String) (data data' : Bytes) (a b : InspectedArchive),
      inspect_zip u limits zip sha256 data = .ok a →
      inspect_zip u limits zip sha256 data' = .ok b →
      (sha256 (hashed a.files) = sha256 (hashed b.files) → hashed a.files = hashed b.files) →
        Identified a b := by
  intro h
  have hidentified := h Sample.ascii {} (Sample.either Sample.pair Sample.recut) (fun _ => "") [80]
    [81] _ _ Sample.inspect_pair Sample.inspect_recut fun _ => by decide
  have hmem := (hidentified.content rfl (['a'], [120])).mp <| .head _
  exact absurd hmem (by decide)

end Sources
