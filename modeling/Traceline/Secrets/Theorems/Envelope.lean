import Traceline.Secrets.Store

namespace Secrets

open Except (bind_eq_ok_iff mapM_eq_ok_iff)

variable {P : Primitives} {key nonce body stream data : Bytes} {length : ℕ}
variable {encoded workspace_id secret_id value : String}

section Text

theorem decode_utf8_eq_some_iff : decode_utf8 data = some value ↔ utf8 value = data := by
  rw [decode_utf8, String.fromUTF8?, utf8]
  constructor
  case mp  =>
    intro h
    split at h
    case isTrue  => cases h; rfl
    case isFalse => cases h
  case mpr =>
    rintro rfl
    exact dif_pos value.isValidUTF8

end Text

section Keystream

theorem xor_xor (h : data.length ≤ stream.length) :
    _legacy_xor (_legacy_xor data stream) stream = data := by
  induction data generalizing stream with
  | nil            => cases stream <;> rfl
  | cons b data ih =>
    cases stream with
    | nil          => cases h
    | cons s stream =>
      have hb : b ^^^ s ^^^ s = b := by rw [UInt8.xor_assoc, UInt8.xor_self, UInt8.xor_zero]
      exact congrArg₂ List.cons hb <| ih <| Nat.le_of_succ_le_succ h

theorem length_xor (h : data.length ≤ stream.length) :
    (_legacy_xor data stream).length = data.length := by
  rw [_legacy_xor, List.length_zipWith, Nat.min_eq_left h]

-- The keystream has whole blocks, so there is enough of it.
theorem le_length_keystream (h : _legacy_keystream P key nonce length = .ok stream) :
    length ≤ stream.length := by
  obtain ⟨blocks, hblocks, h⟩ := bind_eq_ok_iff.mp h
  cases h
  have hforall := mapM_eq_ok_iff.mp hblocks
  have hcount : blocks.length = (length + 31) / 32 := by
    rw [← hforall.length_eq, List.length_range]
  have hlength : ∀ block ∈ blocks, block.length = 32 := by
    intro block hblock
    obtain ⟨index, -, hindex⟩ := hforall.exists_of_mem_right hblock
    obtain ⟨bytes, -, hindex⟩ := bind_eq_ok_iff.mp hindex
    cases hindex
    exact P.hmac_length _ _
  have hsum : blocks.flatten.length = blocks.length * 32 := by
    rw [List.length_flatten, List.map_congr_left hlength, List.map_const', List.sum_replicate_nat]
  omega

end Keystream

-- The envelope of the retired prototype, as it was written for a value.
def Held (P : Primitives) (key : Bytes) (encoded value : String) : Prop :=
  ∃ nonce body stream, nonce.length = 16 ∧
    b64decode encoded.toList = some (nonce ++ P.hmac key (nonce ++ body) ++ body) ∧
    _legacy_keystream P key nonce body.length = .ok stream ∧ body = _legacy_xor (utf8 value) stream ∧
    body.length = (utf8 value).length

theorem decrypt_legacy_eq_ok_iff : _decrypt_legacy P key encoded = .ok value ↔
    _is_legacy encoded = true ∧ Held P key encoded value := by
  rw [_decrypt_legacy]
  by_cases hlegacy : _is_legacy encoded = true
  case neg =>
    rw [if_pos hlegacy]
    exact iff_of_false nofun fun h => hlegacy h.left
  case pos =>
    rw [if_neg (not_not.mpr hlegacy), and_iff_right hlegacy]
    rw [_is_legacy] at hlegacy
    cases hdata : b64decode encoded.toList with
    | none      => rw [hdata] at hlegacy; cases hlegacy
    | some data =>
      rw [hdata] at hlegacy
      have hlength : 48 < data.length := of_decide_eq_true hlegacy
      dsimp only [Option.getD_some]
      constructor
      case mp  =>
        intro h
        split at h
        case isTrue      => cases h
        case isFalse htag =>
          obtain ⟨stream, hstream, h⟩ := bind_eq_ok_iff.mp h
          split at h
          case h_1 value' hvalue =>
            cases h
            have hbody := decode_utf8_eq_some_iff.mp hvalue
            have hle := le_length_keystream hstream
            refine ⟨data.take 16, data.drop 48, stream, ?_, ?_, hstream, ?_, ?_⟩
            · rw [List.length_take]
              omega
            · rw [← not_not.mp htag, List.append_assoc]
              have htail : (data.drop 16).take 32 ++ data.drop 48 = data.drop 16 := by
                rw [← List.drop_drop (i := 32) (j := 16), List.take_append_drop]
              rw [htail, List.take_append_drop]
              exact hdata
            · rw [hbody, xor_xor hle]
            · rw [hbody, length_xor hle]
          case h_2 => cases h
      case mpr =>
        rintro ⟨nonce, body, stream, hnonce, hencoded, hstream, hbody, hsame⟩
        obtain rfl := Option.some.inj <| hdata.symm.trans hencoded
        have htag := P.hmac_length key (nonce ++ body)
        have htake : (nonce ++ P.hmac key (nonce ++ body) ++ body).take 16 = nonce := by
          rw [List.append_assoc, List.take_append_of_le_length (by omega), ← hnonce,
            List.take_length]
        have hdrop : (nonce ++ P.hmac key (nonce ++ body) ++ body).drop 16 =
            P.hmac key (nonce ++ body) ++ body := by
          rw [List.append_assoc, ← hnonce, List.drop_left]
        have hrest : (nonce ++ P.hmac key (nonce ++ body) ++ body).drop (16 + 32) = body := by
          rw [← List.drop_drop, hdrop, ← htag, List.drop_left]
        have htake' : (P.hmac key (nonce ++ body) ++ body).take 32 = P.hmac key (nonce ++ body) := by
          rw [← htag, List.take_left]
        rw [htake, hrest, hdrop, htake', if_neg (not_not.mpr rfl), hstream]
        have hle := le_length_keystream hstream
        have hxor : _legacy_xor body stream = utf8 value := by
          conv_lhs => rw [hbody]
          exact xor_xor <| hsame ▸ hle
        dsimp only [bind, Except.bind]
        rw [hxor, decode_utf8_eq_some_iff.mpr rfl]
        rfl

-- A value is all that an envelope of the prototype holds.
theorem Held.unique {value' : String} (hlegacy : _is_legacy encoded = true)
    (h : Held P key encoded value) (h' : Held P key encoded value') : value = value' :=
  Except.ok.inj <| (decrypt_legacy_eq_ok_iff.mpr ⟨hlegacy, h⟩).symm.trans <|
    decrypt_legacy_eq_ok_iff.mpr ⟨hlegacy, h'⟩

section V1

theorem dot_not_mem_of_legacy (h : _is_legacy encoded = true) : '.' ∉ encoded.toList := by
  intro hdot
  rw [_is_legacy] at h
  cases hdata : b64decode encoded.toList with
  | none      => rw [hdata] at h; cases h
  | some data =>
    have hreadable := Base64.readable_of_decode (hdata ▸ rfl : (b64decode encoded.toList).isSome) _ hdot
    exact hreadable.elim (absurd · (by decide)) (absurd · (by decide))

theorem decrypt_encrypt (hnonce : nonce.length = 12)
    (h : _encrypt P key workspace_id secret_id nonce value = .ok encoded) :
    _decrypt P key workspace_id secret_id encoded = .ok value := by
  rw [_encrypt] at h
  cases hencrypt : P.encrypt key nonce (utf8 value) (_aad P workspace_id secret_id) with
  | none            => rw [hencrypt] at h; cases h
  | some ciphertext =>
    rw [hencrypt] at h
    cases h
    have hfirst : partition ("v1.".toList ++ KEY_ID.toList ++
        '.' :: Base64.encode (nonce ++ ciphertext)) =
          ("v1".toList, some (KEY_ID.toList ++ '.' :: Base64.encode (nonce ++ ciphertext))) := rfl
    have hsecond : partition (KEY_ID.toList ++ '.' :: Base64.encode (nonce ++ ciphertext)) =
        (KEY_ID.toList, some (Base64.encode (nonce ++ ciphertext))) := rfl
    unfold _decrypt
    simp only [String.toList_ofList, hfirst, Option.getD_some, hsecond, if_true]
    rw [if_neg (not_not.mpr rfl), _decrypt_v1, b64decode, Base64.decode_encode]
    have hlength := P.encrypt_length hencrypt
    have htruncated : ¬ (nonce ++ ciphertext).length ≤ 12 := by
      rw [List.length_append]
      omega
    dsimp only
    rw [if_neg htruncated, ← hnonce, List.take_left, List.drop_left, P.decrypt_encrypt hencrypt]
    dsimp only
    rw [decode_utf8_eq_some_iff.mpr rfl]

theorem encrypt_prefix (h : _encrypt P key workspace_id secret_id nonce value = .ok encoded) :
    "v1.".toList.isPrefixOf encoded.toList = true := by
  rw [_encrypt] at h
  split at h
  · cases h
  · cases h
    simp only [String.toList_ofList]
    rfl

end V1

end Secrets
