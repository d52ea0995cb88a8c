import ChainFollower.Attribute.Storage
import ChainFollower.Proofs.Cbor.Rereading
import ChainFollower.Proofs.Json.Admission
import ChainFollower.Proofs.Json.Rereading
import ChainFollower.Proofs.Json.Settling
import ChainFollower.Proofs.Ledger.Datums
import ChainFollower.Proofs.Text.Base64

/-!
# The two forms of a datum

A datum comes in hexadecimal digits or in base64, and digits are tried first.  All digits are
symbols of base64 too, so bytes whose base64 text happens to consist of digits are taken for other,
fewer bytes.  Here it is said which bytes these are, and that no others are lost.

Documents of either kind leave digits behind, whatever was sent.  Stored attributes do so only as
far as their texts are digits already: these are taken unseen.

Main statements: `Datums.decode_base64` and `Datums.digits_of_readers`.
-/

namespace ChainFollower

/-! ## Texts of bytes -/

/-- The base64 text of bytes. -/
def Octets.base64 (bs : Octets) : String := .ofList (Base64.encode bs)

/-- The text of bytes in lower-case hexadecimal digits. -/
def Octets.hex (bs : Octets) : String := .ofList (Hex.encode bs)

namespace Hex

/-- A text of digits, two for each byte. -/
def IsDigits (s : String) : Prop := (decode? s.toList).isSome = true

instance (s : String) : Decidable (IsDigits s) := inferInstanceAs (Decidable (_ = true))

theorem isDigits_hex (bs : Octets) : IsDigits bs.hex := by
  rw [IsDigits, Octets.hex, String.toList_ofList, decode?_encode]
  rfl

/-- Two digits for each byte, and nothing else. -/
theorem digits_of_decode? {cs : List Char} {bs : Octets} (h : decode? cs = some bs) :
    cs.length = 2 * bs.length ∧ ∀ c ∈ cs, (value? c).isSome = true := by
  -- The decoder takes two digits at a time.
  induction cs using decode?.induct generalizing bs with
  | case1 =>
    cases h
    exact ⟨rfl, fun _ hc => absurd hc List.not_mem_nil⟩
  | case2 => cases h
  | case3 a b rest x y tail htail hb ha ih =>
    simp only [decode?, ha, hb, htail] at h
    cases h
    obtain ⟨hlength, hdigits⟩ := ih htail
    refine ⟨?_, ?_⟩
    · simp only [List.length_cons]
      omega
    · simp only [List.forall_mem_cons]
      exact ⟨by rw [ha]; rfl, by rw [hb]; rfl, hdigits⟩
  | case4 a b rest hnone ih =>
    rw [decode?] at h
    split at h
    · next x y tail ha hb htail => exact (hnone x y tail ha hb htail).elim
    · cases h

/-- Read as digits, the base64 text of three bytes stands for two. -/
theorem length_of_decode?_base64 {bs mistaken : Octets}
    (h : decode? (Base64.encode bs) = some mistaken) : 2 * bs.length = 3 * mistaken.length := by
  obtain ⟨hlength, hdigits⟩ := digits_of_decode? h
  rw [Base64.length_encode] at hlength
  -- Padding is no digit, so that the last group is not short.
  have hwhole : bs.length % 3 = 0 := by
    by_contra hshort
    exact absurd (hdigits '=' (Base64.pad_mem_encode hshort)) (by decide)
  omega

/-- No bytes but the empty ones have the same text in digits and in base64. -/
theorem base64_eq_hex_iff {bs : Octets} : bs.base64 = bs.hex ↔ bs = [] := by
  constructor
  · intro h
    have hchars : Base64.encode bs = encode bs := String.ofList_injective h
    have hlength := length_of_decode?_base64 (hchars ▸ decode?_encode bs)
    exact List.length_eq_zero_iff.1 (by omega)
  · rintro rfl
    rfl

end Hex

namespace Datums

/-- The text that stands for bytes that were sent in base64. -/
def kept (bs : Octets) : String := if Hex.IsDigits bs.base64 then bs.base64 else bs.hex

theorem normalize?_of_digits {s : String} (h : Hex.IsDigits s) : normalize? s = some s := by
  obtain ⟨bs, hbs⟩ := Option.isSome_iff_exists.1 h
  rw [normalize?, hbs]

theorem normalize?_of_not_digits {s : String} (h : ¬ Hex.IsDigits s) :
    normalize? s = (Base64.decode? s.toList).map Octets.hex := by
  rw [normalize?, Option.not_isSome_iff_eq_none.1 h]
  rfl

/-- A text stays as it is exactly if it consists of digits. -/
theorem normalize?_eq_self_iff {s : String} : normalize? s = some s ↔ Hex.IsDigits s := by
  refine ⟨fun h => ?_, normalize?_of_digits⟩
  by_contra hother
  rw [normalize?_of_not_digits hother] at h
  obtain ⟨bs, -, rfl⟩ := Option.map_eq_some_iff.1 h
  exact hother (Hex.isDigits_hex bs)

theorem normalize?_base64 (bs : Octets) : normalize? bs.base64 = some (kept bs) := by
  unfold kept
  split
  · next hdigits => exact normalize?_of_digits hdigits
  · next hother =>
    rw [normalize?_of_not_digits hother, Octets.base64, String.toList_ofList,
      Base64.decode?_encode, Option.map_some]

/-- Bytes are kept unless their base64 text can be taken for digits. -/
theorem kept_eq_hex_iff (bs : Octets) :
    kept bs = bs.hex ↔ bs = [] ∨ ¬ Hex.IsDigits bs.base64 := by
  unfold kept
  split
  · next hdigits => simp [Hex.base64_eq_hex_iff, hdigits]
  · next hother => simp [hother]

end Datums

/-! ## Documents -/

/-- Members that are passed on unread are the entries of a map of unread parts. -/
theorem Reader.mapM_of_unreadMembers {m : Medium} {readName : Reader String}
    {entries : List (Item × Item)} {members : List (String × Json)}
    (hname : ∀ k s, readName m k = .ok s → Reader.text m k = .ok s)
    (h : Reader.unreadMembers m readName entries = .ok members) :
    (entries.mapM fun (k, v) => do
      let name ← Reader.text m k
      let value ← Reader.unread m v
      return (name, value)) = .ok members := by
  -- The first name may be read by another reader, so the induction leaves that reader open.
  induction entries generalizing readName members with
  | nil => exact h
  | cons e rest ih =>
    obtain ⟨k, v⟩ := e
    rw [Reader.unreadMembers] at h
    obtain ⟨name, hk, h⟩ := bind_eq_ok.1 h
    obtain ⟨j, hj, h⟩ := bind_eq_ok.1 h
    obtain ⟨tail, htail, h⟩ := bind_eq_ok.1 h
    cases h
    rw [List.mapM_cons, ih (fun _ _ h => h) htail]
    simp only [hname k name hk, hj]
    rfl

/-- An object that is passed on unread can be read as a map of unread parts. -/
theorem Reader.dict_of_unread {item : Item} {members : List (String × Json)}
    (h : Reader.unread .document item = .ok (.object members)) :
    ∃ d : Dict Json, Portable.read .document item = .ok d ∧ d.entries = members := by
  have hname : ∀ k s, Reader.firstName .document k = .ok s → Reader.text .document k = .ok s := by
    intro k s hk
    cases k <;> first | exact hk | cases hk
  -- Only a map, its length announced or not, gives an object.
  have hmap : ∀ entries, Reader.below .document item = item → item.entries? = some entries →
      (Reader.unreadMembers .document Reader.firstName entries).map
        (fun ms => Json.object (Entries.sort ms)) = .ok (.object members) →
      ∃ d : Dict Json, Portable.read .document item = .ok d ∧ d.entries = members := by
    intro entries hbelow hentries hread
    obtain ⟨ms, hms, hsort⟩ := map_eq_ok.1 hread
    cases hsort
    refine ⟨.ofList ms, ?_, rfl⟩
    show (Reader.named Reader.json .document item).map Dict.ofList = _
    have hnamed : Reader.named Reader.json .document item = .ok ms := by
      rw [Reader.named, Reader.entries, hbelow, hentries]
      exact Reader.mapM_of_unreadMembers hname hms
    rw [hnamed]
    rfl
  cases item with
  | map entries => exact hmap entries rfl rfl h
  | streamedMap entries => exact hmap entries rfl rfl h
  | array items =>
    obtain ⟨js, -, hjs⟩ := map_eq_ok.1 h
    cases hjs
  | int n =>
    rw [Reader.unread] at h
    split at h <;> cases h
  | float x =>
    have hfloat := Except.ok.inj h
    split at hfloat <;> cases hfloat
  | _ => cases h

/-- Datums are decoded from a text if its value is an object of texts that can be brought into
their form. -/
theorem Datums.decode_of_texts {α : Type} {entries : List (String × α)} (raw hex : α → String)
    (h : ∀ e ∈ entries, normalize? (raw e.2) = some (hex e.2)) {s : Octets}
    (hs : Json.decode s = .ok (Json.object (entries.map fun e => (e.1, .text (raw e.2))))) :
    Json.decode s = .ok (⟨.ofList (entries.map fun e => (e.1, hex e.2))⟩ : Datums) := by
  obtain ⟨d, hspells, hvalue⟩ := Json.decode_eq_ok_iff_spells.1 hs
  obtain ⟨map, hmap, hentries⟩ := Reader.dict_of_unread hvalue
  have hdatums : ofEntries map.entries = .ok (entries.map fun e => (e.1, hex e.2)) := by
    rw [hentries, ofEntries_text raw hex h]
  exact Json.decode_eq_ok_iff_spells.2 ⟨d, hspells, read_of_entries hmap hdatums⟩

/-- The document of texts. -/
theorem Dict.decode_texts (d : Dict String) :
    (Json.decode (Json.encode d) : Except DecodeError Json) = .ok (toJson d) := by
  have hback : ReadBack 1 d := readBack_dict fun e _ => readBack_text 0 e.2
  have hfree : (toJson d).FloatFree := by
    apply Json.floatFree_object.2
    intro e he
    obtain ⟨entry, -, rfl⟩ := List.mem_map.1 he
    exact Json.floatFree_text entry.2
  rw [Json.encode, Json.decode_octets_json (hback.fits.mono (by decide)) hfree.legible]
  exact congrArg Except.ok (Dict.sorted_toJson d)

/-- Datums that are sent in base64, in whatever spelling: each key is there, and its bytes are kept
exactly if they are none or their base64 text cannot be taken for digits.  Otherwise the text itself
stands in their place, and means two bytes for every three. -/
theorem Datums.decode_base64 (m : Dict Octets) :
    Json.decode (Json.encode (m.map Octets.base64)) = .ok (toJson (m.map Octets.base64)) ∧
    ∀ s, Json.decode s = .ok (toJson (m.map Octets.base64)) →
      ∃ d : Datums, Json.decode s = .ok d ∧
        (∀ key, d.get? key = (m.get? key).map kept) ∧
        (d.byHash = m.map Octets.hex ↔
          ∀ e ∈ m.entries, e.2 = [] ∨ ¬ Hex.IsDigits e.2.base64) ∧
        ∀ key bs mistaken, m.get? key = some bs → Hex.decode? bs.base64.toList = some mistaken →
          d.get? key = some bs.base64 ∧ 2 * bs.length = 3 * mistaken.length := by
  refine ⟨Dict.decode_texts _, ?_⟩
  intro s hs
  -- The sent object, with its texts still in base64.
  have hraw : toJson (m.map Octets.base64) =
      Json.object (m.entries.map fun e => (e.1, .text e.2.base64)) :=
    congrArg Json.object (List.map_map ..)
  have hget : ∀ key, (m.map kept).get? key = (m.get? key).map kept := Entries.lookup_map kept _
  refine ⟨⟨m.map kept⟩, ?_, hget, ?_, ?_⟩
  · have hdecode := decode_of_texts Octets.base64 kept (fun e _ => normalize?_base64 e.2)
      (hraw ▸ hs)
    rw [hdecode]
    exact congrArg (fun byHash => Except.ok (Datums.mk byHash)) (Dict.ofList_entries (m.map kept))
  · rw [Dict.mk.injEq]
    simp only [Dict.map, List.map_inj_left, Prod.mk.injEq, true_and, kept_eq_hex_iff]
  -- A datum whose base64 is also hex: the text stays, and stands for other bytes.
  · intro key bs mistaken hkey hdigits
    refine ⟨?_, ?_⟩
    · have hkept : kept bs = bs.base64 := if_pos (by rw [Hex.IsDigits, hdigits]; rfl)
      exact (hget key).trans (by rw [hkey, Option.map_some, hkept])
    · rw [Octets.base64, String.toList_ofList] at hdigits
      exact Hex.length_of_decode?_base64 hdigits

/-- Three bytes whose base64 text is taken for two others, beside three that are kept. -/
theorem Datums.decode_base64_abcd :
    ∃ (s : Octets) (d : Datums), s = Octets.ofText "\x7b\"h\":\"abcd\",\"k\":\"2HmA\"\x7d" ∧
      Json.decode s = .ok d ∧ d.get? "h" = some "abcd" ∧ Octets.hex [0x69, 0xb7, 0x1d] = "69b71d" ∧
        d.get? "k" = some "d87980" ∧ Octets.hex [0xd8, 0x79, 0x80] = "d87980" := by
  obtain ⟨htext, hall⟩ :=
    decode_base64 (.ofList [("h", [0x69, 0xb7, 0x1d]), ("k", [0xd8, 0x79, 0x80])])
  obtain ⟨d, hdecode, hget, -⟩ := hall _ htext
  refine ⟨_, d, ?_, hdecode, (hget "h").trans ?_, ?_, (hget "k").trans ?_, ?_⟩ <;> decide +kernel

/-! ## What readers leave behind -/

namespace Datums

/-- Every datum is in hexadecimal digits. -/
def InDigits (d : Datums) : Prop := ∀ e ∈ d.byHash.entries, Hex.IsDigits e.2

theorem sound_iff {d : Datums} : d.Sound ↔ d.InDigits :=
  forall₂_congr fun _ _ => normalize?_eq_self_iff

theorem inDigits_iff {d : Datums} :
    d.InDigits ↔ ∀ key hex, d.get? key = some hex → Hex.IsDigits hex := by
  constructor
  · intro h key hex hget
    exact h (key, hex) ((Dict.mem_entries_iff _).2 hget)
  · intro h e he
    exact h e.1 e.2 ((Dict.mem_entries_iff _).1 he)

/-- Datums in digits are decoded from their own text. -/
theorem InDigits.decode_encode {d : Datums} (h : d.InDigits) :
    Json.decode (Json.encode d) = .ok d := by
  have hdecode := decode_of_texts id id (sound_iff.2 h) (Dict.decode_texts d.byHash)
  refine hdecode.trans (congrArg (fun byHash => Except.ok (Datums.mk byHash)) ?_)
  exact (congrArg Dict.ofList (List.map_id d.byHash.entries)).trans (Dict.ofList_entries d.byHash)

/-! ### Stored attributes -/

theorem rel_lookup_of_stored {entries : List (String × Attribute)}
    {datums : List (String × String)} (key : String)
    (h : (entries.mapM fun (key, a) => do
      let hex ← Attribute.asDatum key a
      return (key, hex)) = .ok datums) :
    Option.Rel (fun hex a => ∃ key, Attribute.asDatum key a = .ok hex)
      (datums.reverse.lookup key) (entries.reverse.lookup key) := by
  -- Entries and datums are related in order, and a lookup from the end keeps the relation.
  induction entries generalizing datums with
  | nil =>
    cases h
    exact .none
  | cons e rest ih =>
    obtain ⟨name, a⟩ := e
    rw [List.mapM_cons] at h
    obtain ⟨first, hfirst, h⟩ := bind_eq_ok.1 h
    obtain ⟨tail, htail, h⟩ := bind_eq_ok.1 h
    obtain ⟨hex, hhex, hfirst⟩ := bind_eq_ok.1 hfirst
    cases hfirst
    cases h
    exact Entries.rel_lookup_cons ⟨name, hhex⟩ (ih htail)

/-- Stored datums are in digits exactly if their texts are; bytes always become digits. -/
theorem inDigits_ofAttribute {entries : List (String × Attribute)} {d : Datums}
    (h : Datums.ofAttribute (.map entries) = .ok d) :
    d.InDigits ↔
      ∀ key s, (Dict.ofList entries).get? key = some (.text s) → Hex.IsDigits s := by
  obtain ⟨datums, hdatums, h⟩ := bind_eq_ok.1 h
  cases h
  -- A stored text or byte string stands behind every datum and the other way round.
  have hrel : ∀ key, Option.Rel (fun hex a => ∃ key, Attribute.asDatum key a = .ok hex)
      ((Dict.ofList datums).get? key) ((Dict.ofList entries).get? key) := by
    intro key
    rw [Dict.get?_ofList, Dict.get?_ofList]
    exact rel_lookup_of_stored key hdatums
  rw [inDigits_iff]
  constructor
  · intro hdigits key s hs
    obtain ⟨hex, hget, _, hread⟩ := exists_of_rel_some (hs ▸ hrel key)
    cases hread
    exact hdigits key s hget
  · intro htexts key hex hget
    have hstored := hrel key
    rw [show (Dict.ofList datums).get? key = some hex from hget] at hstored
    obtain ⟨a, ha, _, hread⟩ := exists_of_some_rel hstored
    -- Bytes are always written in hex, so only texts have to be looked at.
    cases a with
    | text s =>
      cases hread
      exact htexts key _ ha
    | bytes b =>
      cases hread
      exact Hex.isDigits_hex b
    | _ => cases hread

/-- What a document of either kind leaves behind is in digits and is read back.  What is left of a
stored attribute is so exactly if its texts are in digits: they are not looked at. -/
theorem digits_of_readers (d : Datums) :
    (∀ m item, Portable.read m item = .ok d →
      d.InDigits ∧ Json.decode (Json.encode d) = .ok d) ∧
    (∀ s, Json.decode s = .ok d ∨ Cbor.decode s = .ok d →
      d.InDigits ∧ Json.decode (Json.encode d) = .ok d) ∧
    ∀ a, Datums.ofAttribute a = .ok d → ∃ entries, a = .map entries ∧
      (d.InDigits ↔
        ∀ key s, (Dict.ofList entries).get? key = some (.text s) → Hex.IsDigits s) ∧
      (Json.decode (Json.encode d) = .ok d ↔ d.InDigits) := by
  -- The document reader normalizes each text, and the two codecs end in it.
  have hread : ∀ m item, Portable.read m item = .ok d →
      d.InDigits ∧ Json.decode (Json.encode d) = .ok d := by
    intro m item h
    have hdigits := sound_iff.1 (sound_of_read h)
    exact ⟨hdigits, hdigits.decode_encode⟩
  have hjson : ∀ s, Json.decode s = .ok d → d.InDigits ∧ Json.decode (Json.encode d) = .ok d := by
    intro s h
    obtain ⟨doc, -, h⟩ := Json.decode_eq_ok_iff_spells.1 h
    exact hread _ _ h
  refine ⟨hread, ?_, ?_⟩
  · rintro s (h | h)
    · exact hjson s h
    · exact hread _ _ ((Cbor.decode_eq_ok fun _ => rfl).1 h)
  -- The store's reader takes a text as it is.
  · intro a h
    cases a with
    | map entries =>
      exact ⟨entries, rfl, inDigits_ofAttribute h, fun hback => (hjson _ hback).1,
        InDigits.decode_encode⟩
    | _ => cases h

/-- A stored text that is no datum at all is taken for one, and is not read back. -/
theorem digits_of_readers_not_hex :
    ∃ d, Datums.ofAttribute (.map [("h", .text "not hex"), ("k", .bytes [0xab])]) = .ok d ∧
      d.get? "h" = some "not hex" ∧ d.get? "k" = some "ab" ∧ ¬ d.InDigits ∧
        Json.decode (Json.encode d) ≠ .ok d := by
  obtain ⟨-, -, hstored⟩ := digits_of_readers ⟨.ofList [("h", "not hex"), ("k", "ab")]⟩
  obtain ⟨entries, hentries, hdigits, hback⟩ :=
    hstored (.map [("h", .text "not hex"), ("k", .bytes [0xab])]) rfl
  cases hentries
  have hnot : ¬ Datums.InDigits ⟨.ofList [("h", "not hex"), ("k", "ab")]⟩ := fun h =>
    absurd (hdigits.1 h "h" "not hex" rfl) (by decide)
  exact ⟨_, rfl, by decide, by decide, hnot, fun h => hnot (hback.1 h)⟩

end Datums

end ChainFollower
