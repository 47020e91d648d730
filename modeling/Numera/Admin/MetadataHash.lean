import Mathlib.Data.List.Basic
import Mathlib.Data.Set.Function
import Numera.Foundation.Json

/-! # Hash-committed market metadata

The canonical encoding of a market's copy and the parser that reads it back from
the chain. The hash, `keccak256` of the UTF-8 bytes of a string, is a parameter:
its values are lower-case hexadecimal strings. The encoding is injective
(`canonicalize_injective`), so two copies have one hash only when the hash has a
collision.
-/

namespace Numera

/-- The fields that are committed to on-chain via `metadataHash`. -/
structure CanonicalMetadata where
  title : JsString
  description : JsString
  resolutionRules : JsString
  imageUrl : Option JsString
  outcomeLabels : List JsString
  categoryKey : Option JsString
  deriving DecidableEq

namespace MetadataHash

open Json (stringify)

/-- A string or `null`. -/
def nullable : Option JsString → Json
  | some text => .string text
  | none => .null

/-- A key and its value. -/
def entry (key : String) (value : Json) : Json := .array [.string (JsString.ascii key), value]

/-- The key-value pairs of the encoding, in their fixed order. -/
def pairs (m : CanonicalMetadata) : Json :=
  .array [
    entry "title" (.string m.title),
    entry "description" (.string m.description),
    entry "resolutionRules" (.string m.resolutionRules),
    entry "imageUrl" (nullable m.imageUrl),
    entry "outcomeLabels" (.array (m.outcomeLabels.map .string)),
    entry "categoryKey" (nullable m.categoryKey)]

/-- Deterministic JSON encoding of a market's metadata. -/
def canonicalize (m : CanonicalMetadata) : JsString := stringify (pairs m)

/-- keccak256 of the canonical encoding, the value passed to `createMarket`. -/
def metadataHashOf (keccak256 : JsString → JsString) (m : CanonicalMetadata) : JsString :=
  keccak256 (canonicalize m)

/-- `str`: a string as it is, anything else as the empty string. -/
def str : Option Json → JsString
  | some (.string text) => text
  | _ => []

/-- A string as it is, anything else as `null`. -/
def stringOrNull : Option Json → Option JsString
  | some (.string text) => some text
  | _ => none

/-- The entries of the top-level array, in order, each a string key and a value. -/
def entries : List Json → Option (List (JsString × Json))
  | [] => some []
  | .array [.string key, value] :: rest => (entries rest).map ((key, value) :: ·)
  | _ => none

/-- `byKey.get`: a later entry has overwritten an earlier one of the same key. -/
def get (byKey : List (JsString × Json)) (key : String) : Option Json :=
  byKey.reverse.lookup (JsString.ascii key)

/-- The metadata a decoded encoding describes, lossy where it is not canonical. -/
def metadataOf (byKey : List (JsString × Json)) : CanonicalMetadata where
  title := str (get byKey "title")
  description := str (get byKey "description")
  resolutionRules := str (get byKey "resolutionRules")
  imageUrl := stringOrNull (get byKey "imageUrl")
  outcomeLabels := match get byKey "outcomeLabels" with
    | some (.array labels) => labels.map fun label => str (some label)
    | _ => []
  categoryKey := stringOrNull (get byKey "categoryKey")

/-- Read back a canonical encoding, refusing anything that does not hash to
`expectedHash`. -/
def parseCanonical (keccak256 : JsString → JsString) (encoded expectedHash : JsString) :
    Option CanonicalMetadata := do
  let .array items ← Json.parse encoded | none
  let metadata := metadataOf (← entries items)
  if (metadataHashOf keccak256 metadata).toLowerCase = expectedHash.toLowerCase then
    some metadata
  else none

/-- What `parseCanonical` accepts has the expected hash. -/
theorem hash_of_parseCanonical {keccak256 : JsString → JsString} {encoded expectedHash : JsString}
    {m : CanonicalMetadata} (accepted : parseCanonical keccak256 encoded expectedHash = some m) :
    (metadataHashOf keccak256 m).toLowerCase = expectedHash.toLowerCase := by
  unfold parseCanonical at accepted
  simp only [Option.bind_eq_bind, Option.bind_eq_some_iff] at accepted
  obtain ⟨value, -, accepted⟩ := accepted
  split at accepted
  · simp only [Option.bind_eq_some_iff] at accepted
    obtain ⟨byKey, -, accepted⟩ := accepted
    split at accepted
    · rename_i same
      cases accepted
      exact same
    · cases accepted
  · cases accepted

private theorem plain_nullable (text : Option JsString) : (nullable text).Plain := by
  cases text <;> trivial

private theorem allPlain_strings (texts : List JsString) :
    Json.AllPlain (texts.map Json.string) := by
  induction texts with
  | nil => trivial
  | cons text rest ih => exact ⟨trivial, ih⟩

private theorem plain_entry (key : String) {value : Json} (plain : value.Plain) :
    (entry key value).Plain := ⟨trivial, plain, trivial⟩

/-- The pairs are made of strings, `null` and arrays of these. -/
theorem plain_pairs (m : CanonicalMetadata) : (pairs m).Plain :=
  ⟨plain_entry _ trivial, plain_entry _ trivial, plain_entry _ trivial,
    plain_entry _ (plain_nullable _), plain_entry _ (allPlain_strings _),
    plain_entry _ (plain_nullable _), trivial⟩

private theorem nullable_injective {first second : Option JsString}
    (same : nullable first = nullable second) : first = second := by
  cases first <;> cases second <;> simp_all [nullable]

/-- **The encoding is injective.** -/
theorem canonicalize_injective {first second : CanonicalMetadata}
    (same : canonicalize first = canonicalize second) : first = second := by
  have pairsSame := Json.stringify_injective (plain_pairs first) (plain_pairs second) same
  simp only [pairs, entry, Json.array.injEq, List.cons.injEq, Json.string.injEq, and_true,
    true_and] at pairsSame
  obtain ⟨title, description, rules, image, labels, category⟩ := pairsSame
  have labelsSame : first.outcomeLabels = second.outcomeLabels :=
    List.map_injective_iff.mpr (fun _ _ => Json.string.inj) labels
  have imageSame : first.imageUrl = second.imageUrl := nullable_injective image
  have categorySame : first.categoryKey = second.categoryKey := nullable_injective category
  cases first
  cases second
  rw [CanonicalMetadata.mk.injEq]
  exact ⟨title, description, rules, imageSame, labelsSame, categorySame⟩

/-- The pairs are read back as the metadata they were made of. -/
theorem metadataOf_pairs (m : CanonicalMetadata) :
    ∃ items byKey, pairs m = .array items ∧ entries items = some byKey ∧ metadataOf byKey = m := by
  have image : stringOrNull (some (nullable m.imageUrl)) = m.imageUrl := by
    cases m.imageUrl <;> rfl
  have category : stringOrNull (some (nullable m.categoryKey)) = m.categoryKey := by
    cases m.categoryKey <;> rfl
  have labels : (m.outcomeLabels.map Json.string).map (fun label => str (some label)) =
      m.outcomeLabels := by
    simp [str, Function.comp_def]
  refine ⟨_, _, rfl, rfl, ?_⟩
  change CanonicalMetadata.mk m.title m.description m.resolutionRules
    (stringOrNull (some (nullable m.imageUrl)))
    ((m.outcomeLabels.map Json.string).map fun label => str (some label))
    (stringOrNull (some (nullable m.categoryKey))) = m
  rw [image, labels, category]

variable {keccak256 : JsString → JsString} {expectedHash : JsString} {m : CanonicalMetadata}

/-- An encoding is accepted under its own hash, in either case. -/
theorem parseCanonical_canonicalize
    (hashes : expectedHash.toLowerCase = (metadataHashOf keccak256 m).toLowerCase) :
    parseCanonical keccak256 (canonicalize m) expectedHash = some m := by
  obtain ⟨items, byKey, written, read, same⟩ := metadataOf_pairs m
  have parsed : Json.parse (canonicalize m) = some (.array items) := by
    rw [canonicalize, ← written]
    exact Json.parse_stringify _ (plain_pairs m)
  simp only [parseCanonical, parsed, Option.bind_eq_bind, Option.bind_some, read, same]
  rw [if_pos hashes.symm]

/-- What is accepted under its own hash is the encoding of what was read, unless the two make a
collision. -/
theorem canonicalize_of_parseCanonical {encoded : JsString}
    (lowerCase : ∀ text, (keccak256 text).toLowerCase = keccak256 text)
    (hashes : expectedHash.toLowerCase = keccak256 encoded)
    (collisionFree : Set.InjOn keccak256 {encoded, canonicalize m})
    (accepted : parseCanonical keccak256 encoded expectedHash = some m) :
    canonicalize m = encoded := by
  have same := hash_of_parseCanonical accepted
  rw [hashes, metadataHashOf, lowerCase] at same
  exact collisionFree (Set.mem_insert_of_mem _ rfl) (Set.mem_insert _ _) same

/-- **Exactly the canonical encodings are accepted.** An encoding is read back under its hash in
either case, a string that is accepted under its own hash is the encoding of what was read, and
one that is no encoding is refused. -/
theorem parseCanonical_exact (lowerCase : ∀ text, (keccak256 text).toLowerCase = keccak256 text) :
    (∀ m expectedHash, expectedHash.toLowerCase = (metadataHashOf keccak256 m).toLowerCase →
        parseCanonical keccak256 (canonicalize m) expectedHash = some m) ∧
      ∀ encoded expectedHash, expectedHash.toLowerCase = keccak256 encoded →
        (∀ m, Set.InjOn keccak256 {encoded, canonicalize m} →
          parseCanonical keccak256 encoded expectedHash = some m → canonicalize m = encoded) ∧
        ((∀ m, Set.InjOn keccak256 {encoded, canonicalize m}) →
          (∀ m, canonicalize m ≠ encoded) →
          parseCanonical keccak256 encoded expectedHash = none) := by
  refine ⟨fun m expectedHash => parseCanonical_canonicalize, fun encoded expectedHash hashes => ?_⟩
  refine ⟨fun m => canonicalize_of_parseCanonical lowerCase hashes, fun collisionFree other => ?_⟩
  cases parsed : parseCanonical keccak256 encoded expectedHash with
  | none => rfl
  | some m =>
      have canonical := canonicalize_of_parseCanonical lowerCase hashes (collisionFree m) parsed
      exact absurd canonical (other m)

namespace Sample

/-- A market without a picture or a category. -/
def rain : CanonicalMetadata :=
  ⟨JsString.ascii "Rain", [], [], none, [JsString.ascii "Yes", JsString.ascii "No"], none⟩

/-- The hash of its encoding. -/
def rainHash : JsString :=
  JsString.ascii "0x5f26e2995cd945470b3b00a9d782afe9781488b29e6ce59fe90f2095e0ad5213"

/-- `keccak256` on the encoding. -/
def digest (text : JsString) : JsString :=
  if text = canonicalize rain then rainHash else JsString.ascii "0x"

end Sample

open Numera.MetadataHash.Sample in
/-- The market's encoding is read back under its hash, and stands for nothing else. -/
theorem parseCanonical_exact_rain :
    parseCanonical digest (canonicalize rain) rainHash = some rain ∧
      ∀ m, Set.InjOn digest {canonicalize rain, canonicalize m} →
        parseCanonical digest (canonicalize rain) rainHash = some m →
          canonicalize m = canonicalize rain := by
  have lowerCase : ∀ text, (digest text).toLowerCase = digest text := by
    intro text
    unfold digest
    split <;> decide +kernel
  have hashed : digest (canonicalize rain) = rainHash := if_pos rfl
  have lower : rainHash.toLowerCase = rainHash := by decide +kernel
  obtain ⟨read, exactly⟩ := parseCanonical_exact lowerCase
  refine ⟨read rain rainHash ?_, (exactly (canonicalize rain) rainHash ?_).1⟩
  · rw [metadataHashOf, hashed]
  · rw [hashed, lower]

end MetadataHash

end Numera
