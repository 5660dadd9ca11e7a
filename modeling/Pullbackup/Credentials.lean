import Pullbackup.Cookies
import Pullbackup.Library.Base64

/- http_auth.py: the credential of the settings, the two ways a request can show it, and
   whether a refusal challenges the browser. A header's bytes are read as latin-1. -/
namespace Pullbackup
open Text Base64

def control (c : Char) : Bool := c.toNat < 32 || c.toNat = 127

def validConfiguration (username password : String) : Bool :=
  username ≠ "" && !username.toList.contains ':' && !username.toList.any control &&
    32 ≤ password.length && !password.toList.any control

/- What sha256 makes of a text. -/
variable {δ : Type} [DecidableEq δ]

def constantTimeEqual (digest : String → δ) (left right : String) : Bool :=
  digest left = digest right

def utf8 (text : String) : List UInt8 := text.toUTF8.data.toList

def decodeUtf8 (bytes : List UInt8) : Option String := String.fromUTF8? ⟨bytes.toArray⟩

def authorized (digest : String → δ) (username password header : String) : Bool :=
  match partition ' ' header with
  | (_, false, _) => false
  | (scheme, true, encoded) =>
    if scheme.toLower ≠ "basic" then false
    else
      match (decode encoded.toList).bind decodeUtf8 with
      | none => false
      | some decoded =>
        match partition ':' decoded with
        | (_, false, _) => false
        | (suppliedUsername, true, suppliedPassword) =>
          constantTimeEqual digest suppliedUsername username &&
            constantTimeEqual digest suppliedPassword password

def header (headers : List (String × String)) (name : String) : Option String :=
  (headers.reverse.find? fun line => line.1 = name).map Prod.snd

def occursIn (part text : List Char) : Bool := text.tails.any fun tail => part.isPrefixOf tail

def isBrowserSubresource (headers : List (String × String)) : Bool :=
  if (strip ((header headers "x-pullbackup-client").getD "")).toLower = "web" then true
  else if occursIn "text/event-stream".toList
    ((header headers "accept").getD "").toLower.toList then true
  else
    match header headers "sec-fetch-mode" with
    | none => false
    | some mode => (strip mode).toLower ≠ "navigate"

section Basic
variable {digest : String → δ} {username password text header : String}

theorem decodeUtf8_iff {bytes : List UInt8} : decodeUtf8 bytes = some text ↔ bytes = utf8 text := by
  unfold decodeUtf8 String.fromUTF8? utf8
  constructor
  · intro found
    split at found
    · cases found
      rfl
    · cases found
  · rintro rfl
    have valid : ByteArray.IsValidUTF8 ⟨text.toUTF8.data.toList.toArray⟩ := by
      simpa using text.isValidUTF8
    rw [dif_pos valid]
    congr 1

/-- No other text has the digest of this one. -/
def Distinctive (digest : String → δ) (text : String) : Prop :=
  ∀ other, digest other = digest text → other = text

def Shows (header username password : String) : Prop :=
  ∃ scheme encoded : String, header.toList = scheme.toList ++ ' ' :: encoded.toList ∧
    ' ' ∉ scheme.toList ∧ scheme.toLower = "basic" ∧
    decode encoded.toList = some (utf8 (username ++ ":" ++ password))

theorem constantTimeEqual_iff (only : Distinctive digest text) {other : String} :
    constantTimeEqual digest other text = true ↔ other = text := by
  rw [constantTimeEqual, decide_eq_true_eq]
  constructor
  · exact only other
  · rintro rfl
    rfl

theorem partition_credential (colonless : ':' ∉ username.toList) :
    partition ':' (username ++ ":" ++ password) = (username, true, password) :=
  partition_eq_found_iff.mpr ⟨by simp, colonless⟩

theorem authorized_iff (named : Distinctive digest username) (secret : Distinctive digest password)
    (colonless : ':' ∉ username.toList) :
    authorized digest username password header = true ↔ Shows header username password := by
  constructor
  · intro accepted
    unfold authorized at accepted
    split at accepted
    · cases accepted
    · rename_i scheme encoded cut
      obtain ⟨whole, spaceless⟩ := partition_eq_found_iff.mp cut
      split at accepted
      · cases accepted
      · rename_i basic
        split at accepted
        · cases accepted
        · rename_i decoded found
          split at accepted
          · cases accepted
          · rename_i suppliedUsername suppliedPassword parts
            rw [Bool.and_eq_true, constantTimeEqual_iff named, constantTimeEqual_iff secret]
              at accepted
            obtain ⟨rfl, rfl⟩ := accepted
            obtain ⟨bytes, decodes, reads⟩ := Option.bind_eq_some_iff.mp found
            refine ⟨scheme, encoded, whole, spaceless, not_not.mp basic, ?_⟩
            have text := (partition_eq_found_iff.mp parts).1
            have same : decoded = suppliedUsername ++ ":" ++ suppliedPassword := by
              apply String.toList_injective
              simpa using text
            rw [decodes, decodeUtf8_iff.mp reads, same]
  · rintro ⟨scheme, encoded, whole, spaceless, basic, decodes⟩
    have cut := partition_eq_found_iff.mpr ⟨whole, spaceless⟩
    have reads : (decode encoded.toList).bind decodeUtf8 = some (username ++ ":" ++ password) := by
      rw [decodes, Option.bind_some]
      exact decodeUtf8_iff.mpr rfl
    simp only [authorized, cut, basic, reads, partition_credential colonless, ne_eq, not_true,
      if_false, constantTimeEqual, decide_true, Bool.and_self]

def basicHeader (username password : String) : String :=
  "Basic " ++ String.ofList (encode (utf8 (username ++ ":" ++ password)))

theorem basicHeader_shows (username password : String) :
    Shows (basicHeader username password) username password :=
  ⟨"Basic", String.ofList (encode (utf8 (username ++ ":" ++ password))), by simp [basicHeader],
    by decide, by decide +kernel, by rw [String.toList_ofList, decode_encode]⟩

end Basic

end Pullbackup
