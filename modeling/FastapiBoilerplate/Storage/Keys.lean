import Mathlib.Data.List.DropRight
import FastapiBoilerplate.Lib.Uuid
import FastapiBoilerplate.Lib.TextRoundTrip

/-!
# Object keys

The keys of `src/storage/base.py` and the path that `src/storage/local.py` maps one to. The owner
of an object is in its key: what `build_object_key` makes is under `users/<owner>/` because it has
been validated, and what is under it stays there on the way to a path, because no segment of a
valid key is `.` or `..` (`keys_carry_their_owner`). The extension is taken from the file name as
it is, slashes included (`lands_in_folder_iff`).

`lower` is `str.lower`, about which nothing is assumed but, to speak of the file name itself, that
it makes a slash of a slash only (`slash_mem_extension_iff`). A path is the list of its parts;
there are no symbolic links.
-/

namespace Storage

open Lib List

inductive Details
  | none
  | length (length : ℕ)
  | key (key : Text)
  deriving DecidableEq

/-- `BadRequestError`, `ForbiddenError` and `StorageError`. -/
inductive KeyError
  | badRequest (message : Text) (details : Details)
  | forbidden (message : Text)
  | storage (message : Text) (details : Details)
  deriving DecidableEq

def maxKeyLength : ℕ := 1024

/-- `[A-Za-z0-9]`. -/
def isKeyStart (c : CodePoint) : Bool :=
  (0x30 ≤ c.val && c.val ≤ 0x39) || (0x41 ≤ c.val && c.val ≤ 0x5a) ||
    (0x61 ≤ c.val && c.val ≤ 0x7a)

/-- `[A-Za-z0-9._-]`. -/
def isKeyPoint (c : CodePoint) : Bool :=
  isKeyStart c || c.val = 0x2e || c.val = 0x5f || c.val = 0x2d

/-- A segment as it is documented. -/
def isSegment : Text → Bool
  | [] => false
  | c :: rest => isKeyStart c && rest.all isKeyPoint

/-- `_KEY_SEGMENT_RE.match(segment)`. The `$` matches before a final line feed as well. -/
def segmentMatches (segment : Text) : Bool :=
  isSegment (if segment.getLast? = some 0x0a then segment.dropLast else segment)

/-- `validate_object_key`. -/
def validateObjectKey (key : Text) : Except KeyError Text :=
  if key = [] then .error (.badRequest (lit "Object key must not be empty.") .none)
  else if maxKeyLength < key.length then
    .error (.badRequest (lit "Object key must be at most " ++ decimal maxKeyLength ++
      lit " characters.") (.length key.length))
  else if startsWith key (lit "/") || 0x5c ∈ key || 0 ∈ key then
    .error (.badRequest (lit "Object key must be a relative, slash-separated path.") (.key key))
  else if !(key.splitOn 0x2f).all segmentMatches then
    .error (.badRequest (lit "Object key segments must be non-empty and contain only letters, " ++
      lit "digits, '.', '-' and '_'.") (.key key))
  else .ok key

/-- `owner_key_prefix`. -/
def ownerKeyPrefix (owner : UUID) : Text := lit "users/" ++ owner.str ++ lit "/"

/-- `posixpath.join(path, part)`. -/
def join (path part : Text) : Text :=
  if startsWith part (lit "/") then part
  else if path = [] || endsWith path (lit "/") then path ++ part
  else path ++ lit "/" ++ part

/-- What follows the last dot, in lower case. -/
def extension (lower : Text → Text) (filename : Text) : Text :=
  match rpartition (lit ".") filename with
  | some (_, ext) => lower ext
  | none => []

/-- The directory that `build_object_key` puts an object in. -/
def directory (owner : UUID) (folder : Text) : Text :=
  join ((ownerKeyPrefix owner).rdropWhile (· = 0x2f)) folder

/-- The name of an object; `unique` is what `uuid4` draws. -/
def objectName (unique : UUID) (ext : Text) : Text :=
  unique.str ++ if ext = [] then [] else lit "." ++ ext

/-- `build_object_key`. -/
def buildObjectKey (lower : Text → Text) (folder filename : Text) (owner unique : UUID) :
    Except KeyError Text :=
  validateObjectKey (join (directory owner folder) (objectName unique (extension lower filename)))

/-- `require_key_owned_by`. -/
def requireKeyOwnedBy (key : Text) (owner : UUID) : Except KeyError Text :=
  match validateObjectKey key with
  | .error e => .error e
  | .ok _ =>
    if !startsWith key (ownerKeyPrefix owner) then
      .error (.forbidden (lit "Object key does not belong to the authenticated user."))
    else .ok key

/-- The parts of a path, taken one after the other from `path` on. -/
def walk (path : List Text) : List Text → List Text
  | [] => path
  | part :: parts =>
    if part = [] ∨ part = lit "." then walk path parts
    else if part = lit ".." then walk path.dropLast parts
    else walk (path ++ [part]) parts

/-- `_path_for`, with `root` resolved. -/
def pathFor (root : List Text) (key : Text) : Except KeyError (List Text) :=
  match validateObjectKey key with
  | .error e => .error e
  | .ok key =>
    let path := walk root (key.splitOn 0x2f)
    if root <+: path ∧ root ≠ path then .ok path
    else .error (.storage (lit "Resolved object path escapes the storage root.") (.key key))

section
variable {key folder filename : Text} {owner unique : UUID} {lower : Text → Text}

/-! ## What is valid -/

theorem validateObjectKey_cases (key : Text) :
    (∃ message details, validateObjectKey key = .error (.badRequest message details)) ∨
    (validateObjectKey key = .ok key ∧ startsWith key (lit "/") = false ∧
      ∀ segment ∈ key.splitOn 0x2f, segmentMatches segment) := by
  unfold validateObjectKey
  split
  · exact .inl ⟨_, _, rfl⟩
  split
  · exact .inl ⟨_, _, rfl⟩
  split
  · exact .inl ⟨_, _, rfl⟩
  split
  · exact .inl ⟨_, _, rfl⟩
  · simp_all

/-- A name that is valid leads nowhere but to itself. -/
theorem walk_eq_append {parts : List Text} (path : List Text)
    (h : ∀ part ∈ parts, segmentMatches part) : walk path parts = path ++ parts := by
  induction parts generalizing path with
  | nil => simp [walk]
  | cons part parts ih =>
    obtain ⟨hpart, hparts⟩ := forall_mem_cons.mp h
    have hplain : part ≠ [] ∧ part ≠ lit "." ∧ part ≠ lit ".." := by
      refine ⟨?_, ?_, ?_⟩ <;> rintro rfl <;> exact absurd hpart (by decide)
    rw [walk, if_neg (by simp [hplain]), if_neg hplain.2.2, ih _ hparts]
    simp

/-! ## Whose it is -/

theorem slash_not_mem_str (id : UUID) : 0x2f ∉ id.str := by
  intro h
  rcases UUID.mem_str h with h | ⟨d, hd, h⟩
  · exact absurd h (by decide)
  · revert d
    decide

theorem startsWith_ownerKeyPrefix_iff {other : UUID} (rest : Text) :
    startsWith (ownerKeyPrefix owner ++ rest) (ownerKeyPrefix other) ↔ other = owner := by
  rw [startsWith, isPrefixOf_iff_prefix]
  refine ⟨fun ⟨tail, h⟩ => ?_, fun h => h ▸ prefix_append _ _⟩
  have htakes (id : UUID) (t : Text) :
      (id.str ++ (lit "/" ++ t)).takeWhile (· ≠ 0x2f) = id.str := by
    rw [takeWhile_append_of_pos fun c hc => decide_eq_true (ne_of_mem_of_not_mem hc
      (slash_not_mem_str id))]
    exact append_nil _
  simp only [ownerKeyPrefix, append_assoc, append_cancel_left_eq] at h
  exact UUID.str_injective (by rw [← htakes other tail, h, htakes])

theorem join_of_relative {part : Text} (path : Text) (h : startsWith part (lit "/") = false) :
    join path part =
      path ++ (if path = [] || endsWith path (lit "/") then [] else lit "/") ++ part := by
  unfold join
  split_ifs <;> simp_all

theorem str_append_relative (id : UUID) (rest : Text) :
    startsWith (id.str ++ rest) (lit "/") = false := by
  match hstr : id.str with
  | [] => simp [UUID.str, lit] at hstr
  | c :: cs =>
    have hc : 0x2f ≠ c := fun h => slash_not_mem_str id (by simp [hstr, h])
    simp [startsWith, lit, isPrefixOf]
    exact hc

theorem directory_eq (h : startsWith folder (lit "/") = false) :
    directory owner folder = ownerKeyPrefix owner ++ folder := by
  obtain hnil | ⟨front, c, hstr⟩ := eq_nil_or_concat' owner.str
  · simp [UUID.str, lit] at hnil
  have hc : c ≠ 0x2f := fun h => slash_not_mem_str owner (by simp [hstr, h])
  have hbase : lit "users/" ++ owner.str = lit "users/" ++ front ++ [c] := by simp [hstr]
  have hstrip : (ownerKeyPrefix owner).rdropWhile (· = 0x2f) = lit "users/" ++ owner.str := by
    rw [ownerKeyPrefix, show lit "/" = [0x2f] from rfl, rdropWhile_concat_pos _ _ _ rfl, hbase,
      rdropWhile_concat_neg _ _ _ (by simpa using hc)]
  have hends : endsWith (lit "users/" ++ owner.str) (lit "/") = false := by
    rw [hbase, endsWith, Bool.eq_false_iff, ne_eq, isSuffixOf_iff_suffix]
    rintro ⟨tail, h⟩
    exact hc (head_eq_of_cons_eq (append_inj_right' h rfl).symm)
  rw [directory, hstrip, join_of_relative _ h, hends]
  simp [hbase, ownerKeyPrefix]

/-- A folder that is absolute is no way out, and a relative one is in the directory of the owner. -/
theorem exists_of_buildObjectKey
    (h : buildObjectKey lower folder filename owner unique = .ok key) :
    key = join (directory owner folder) (objectName unique (extension lower filename)) ∧
      validateObjectKey key = .ok key ∧ ∃ rest, key = ownerKeyPrefix owner ++ rest := by
  obtain ⟨message, details, herr⟩ | ⟨hvalid, hrelative, -⟩ :=
    validateObjectKey_cases
      (join (directory owner folder) (objectName unique (extension lower filename)))
  · exact nomatch herr.symm.trans h
  obtain rfl := Except.ok.inj (hvalid.symm.trans h)
  refine ⟨rfl, hvalid, ?_⟩
  rw [objectName, join_of_relative _ (str_append_relative _ _)] at hrelative ⊢
  by_cases hfolder : startsWith folder (lit "/")
  · obtain ⟨rest, rfl⟩ := isPrefixOf_iff_prefix.mp hfolder
    simp [directory, join, startsWith, isPrefixOf, lit] at hrelative
  · rw [directory_eq (Bool.eq_false_iff.mpr hfolder)]
    simp only [append_assoc]
    exact ⟨_, rfl⟩

theorem splitOn_ownerKeyPrefix (rest : Text) :
    (ownerKeyPrefix owner ++ rest).splitOn 0x2f =
      lit "users" :: owner.str :: rest.splitOn 0x2f := by
  have hkey : ownerKeyPrefix owner ++ rest = lit "users" ++ 0x2f :: (owner.str ++ 0x2f :: rest) := by
    simp [ownerKeyPrefix, lit]
  rw [hkey, splitOn_append_cons_self_of_not_mem (by decide),
    splitOn_append_cons_self_of_not_mem (slash_not_mem_str owner)]

/-- Object keys carry their owner. -/
theorem keys_carry_their_owner :
    (∀ lower folder filename owner unique,
      (∃ message details, buildObjectKey lower folder filename owner unique =
        .error (.badRequest message details)) ∨
      ∃ key, buildObjectKey lower folder filename owner unique = .ok key ∧
        validateObjectKey key = .ok key ∧
        ∀ other, requireKeyOwnedBy key other = .ok key ↔ other = owner) ∧
    ∀ root key owner,
      (∃ error, requireKeyOwnedBy key owner = .error error) ∨
      ∃ part parts, pathFor root key =
        .ok (root ++ lit "users" :: owner.str :: part :: parts) := by
  refine ⟨fun lower folder filename owner unique => ?_, fun root key owner => ?_⟩
  · match hbuild : buildObjectKey lower folder filename owner unique with
    | .error error =>
      obtain ⟨message, details, herr⟩ | ⟨hvalid, -⟩ := validateObjectKey_cases
        (join (directory owner folder) (objectName unique (extension lower filename)))
      · exact .inl ⟨message, details, hbuild ▸ herr⟩
      · exact nomatch hvalid.symm.trans hbuild
    | .ok key =>
      obtain ⟨-, hvalid, rest, rfl⟩ := exists_of_buildObjectKey hbuild
      refine .inr ⟨_, rfl, hvalid, fun other => ?_⟩
      simp [requireKeyOwnedBy, hvalid, ← startsWith_ownerKeyPrefix_iff rest]
  · obtain ⟨message, details, herr⟩ | ⟨hvalid, -, hmatches⟩ := validateObjectKey_cases key
    · exact .inl ⟨_, by rw [requireKeyOwnedBy, herr]⟩
    cases hstarts : startsWith key (ownerKeyPrefix owner) with
    | false => exact .inl ⟨_, by simp only [requireKeyOwnedBy, hvalid, hstarts]; rfl⟩
    | true =>
      obtain ⟨rest, rfl⟩ := isPrefixOf_iff_prefix.mp hstarts
      obtain ⟨part, parts, hparts⟩ :=
        exists_cons_of_ne_nil (splitOn_ne_nil (0x2f : CodePoint) rest)
      refine .inr ⟨part, parts, ?_⟩
      have hwalk := walk_eq_append root hmatches
      rw [splitOn_ownerKeyPrefix, hparts] at hwalk
      simp [pathFor, hvalid, splitOn_ownerKeyPrefix, hparts, hwalk]

/-! ## Where it lands -/

/-- The object is directly in the folder that was asked for, under its UUID or under the UUID and
    an extension. -/
def LandsIn (owner unique : UUID) (folder key : Text) : Prop :=
  ∃ name, key = join (directory owner folder) name ∧ 0x2f ∉ name ∧
    (name = unique.str ∨ ∃ ext, name = unique.str ++ lit "." ++ ext)

theorem slash_mem_objectName_iff (unique : UUID) (ext : Text) :
    0x2f ∈ objectName unique ext ↔ 0x2f ∈ ext := by
  rw [objectName, mem_append, or_iff_right (slash_not_mem_str unique)]
  split_ifs with hext
  · rw [hext]
  · rw [mem_append, or_iff_right (by decide)]

theorem landsIn_iff (owner unique : UUID) (folder ext : Text) :
    LandsIn owner unique folder (join (directory owner folder) (objectName unique ext)) ↔
      0x2f ∉ ext := by
  rw [← slash_mem_objectName_iff unique]
  constructor
  · rintro ⟨name, hjoin, hslash, -⟩
    have hrelative : startsWith name (lit "/") = false := by
      rw [startsWith, Bool.eq_false_iff, ne_eq, isPrefixOf_iff_prefix]
      exact fun h => hslash (h.subset (mem_singleton_self _))
    rw [join_of_relative _ hrelative, objectName, join_of_relative _ (str_append_relative _ _),
      append_cancel_left_eq] at hjoin
    exact objectName.eq_1 unique ext ▸ hjoin ▸ hslash
  · refine fun hslash => ⟨_, rfl, hslash, ?_⟩
    unfold objectName
    split_ifs with hext
    · exact .inl (append_nil _)
    · exact .inr ⟨ext, (append_assoc unique.str (lit ".") ext).symm⟩

/-- `str.lower` makes a slash of a slash only, so the condition is one on the file name: a slash
    follows its last dot. -/
theorem slash_mem_extension_iff (hlower : ∀ text, 0x2f ∈ lower text ↔ 0x2f ∈ text) :
    0x2f ∈ extension lower filename ↔
      ∃ stem ext, filename = stem ++ 0x2e :: ext ∧ 0x2e ∉ ext ∧ 0x2f ∈ ext := by
  have hextension {stem ext : Text} (hdot : 0x2e ∉ ext) :
      extension lower (stem ++ 0x2e :: ext) = lower ext := by
    rw [extension, show lit "." = [] ++ [0x2e] from rfl, ← nil_append (0x2e :: ext),
      rpartition_append hdot]
  constructor
  · intro h
    have hdot : 0x2e ∈ filename := by
      unfold extension at h
      split at h
      · next hpart =>
        obtain ⟨p, hpart, -⟩ := Option.map_eq_some_iff.mp hpart
        exact mem_reverse.mp (mem_of_partition hpart)
      · cases h
    obtain ⟨ext, stem, hreverse, hext⟩ := eq_append_cons_of_mem (mem_reverse.mpr hdot)
    obtain rfl : filename = stem.reverse ++ 0x2e :: ext.reverse := by
      simpa using congrArg reverse hreverse
    rw [hextension (mt mem_reverse.mp hext), hlower] at h
    exact ⟨_, _, rfl, mt mem_reverse.mp hext, h⟩
  · rintro ⟨stem, ext, rfl, hdot, hslash⟩
    rw [hextension hdot, hlower]
    exact hslash

theorem lands_in_folder_iff (h : buildObjectKey lower folder filename owner unique = .ok key) :
    LandsIn owner unique folder key ↔ 0x2f ∉ extension lower filename := by
  rw [(exists_of_buildObjectKey h).1]
  exact landsIn_iff owner unique folder (extension lower filename)

theorem pdf_lands_in_folder :
    ∃ key, buildObjectKey lowerAscii (lit "docs") (lit "a.b.PDF") 1 2 = .ok key ∧
      LandsIn 1 2 (lit "docs") key :=
  have h : buildObjectKey lowerAscii (lit "docs") (lit "a.b.PDF") 1 2 =
    .ok (ownerKeyPrefix 1 ++ lit "docs/" ++ UUID.str 2 ++ lit ".pdf") := by decide +kernel
  ⟨_, h, (lands_in_folder_iff h).mpr (by decide)⟩

/-- The file name picks a directory under the folder and the name in it. -/
theorem extension_names_the_object :
    let key := ownerKeyPrefix 1 ++ lit "docs/" ++ UUID.str 2 ++ lit ".b/report"
    buildObjectKey lowerAscii (lit "docs") (lit "a.b/report") 1 2 = .ok key ∧
      ¬ LandsIn 1 2 (lit "docs") key := by
  have hkey : ownerKeyPrefix 1 ++ lit "docs/" ++ UUID.str 2 ++ lit ".b/report" =
    join (directory 1 (lit "docs")) (objectName 2 (lit "b/report")) := by decide +kernel
  refine ⟨by decide +kernel, ?_⟩
  rw [hkey, landsIn_iff]
  decide

end

end Storage
