import PiSecure.Theory.Sums

/-! # What a download leaves

A download is safe when it writes nothing into the install tree, and leaves bytes
only when they are verified. The guard of the install tree compares too many bytes,
and a failed extraction is not cleaned up. Where a path leads is up to the system, which
drops empty names and dots and follows links.
-/

namespace PiSecure

namespace Release

/-- Where the system finds the file of a path: the names on the way from the root. -/
abbrev Places := Bytes → List Bytes

/-- A path that leads into the install tree. -/
def Installed (places : Places) (dest : Bytes) : Prop :=
  ∃ inside, inside ≠ [] ∧ places dest = [str "opt", str "pisecure"] ++ inside

/-- The places of a system without links, from its working directory. -/
def plainPlaces (directory : List Bytes) : Places := fun path =>
  (path.splitOn 47).foldl
    (fun place name =>
      if name = [] ∨ name = str "." then place
      else if name = str ".." then place.dropLast
      else place ++ [name])
    (if path.head? = some 47 then [] else directory)

example : Installed (plainPlaces []) (str "/opt//pisecure/./pisecured") :=
  ⟨[str "pisecured"], List.cons_ne_nil _ _, by decide⟩

example : Installed (plainPlaces [str "tmp"]) (str "../opt/pisecure/pisecured") :=
  ⟨[str "pisecured"], List.cons_ne_nil _ _, by decide⟩

section Download

variable (places : Places) (web : Web) (tar : Tar) (stored : Bool) (report : Report)
  (member dest : Bytes)

/-- The archive that is downloaded. -/
def archiveOf : Bytes := (curlStatus web report.url).2

/-- The member as the archive names it. -/
def binMember : Bytes := tarMember tar (archiveOf web report) member

/-- The sums in the archive. -/
def archiveSums : Bytes :=
  tarText tar (archiveOf web report) (tarMember tar (archiveOf web report) (str "SHA256SUMS"))

/-- The hash that is found for the member in the sums of the archive. -/
def foundHash : Bytes := sumsHashFor (archiveSums web tar report) (binMember web tar report member)

/-- The bytes of the member. -/
def memberBytes : Bytes := tarText tar (archiveOf web report) (binMember web tar report member)

/-- A safe end of a download: bytes that stay have the hash that the sums in the archive list
for the member, and none get into the install tree. -/
structure Safe (outcome : Outcome) : Prop where
  returned : outcome.ok = true → ¬Installed places dest ∧ ∃ bytes hash,
    outcome.left = .holds bytes ∧
      Lists (archiveSums web tar report) (binMember web tar report member) hash ∧
        fileSha256 bytes = hash
  failed : outcome.ok = false → ¬(outcome.wrote = true ∧ Installed places dest) ∧
    ∀ bytes, outcome.left = .holds bytes → bytes = []

/-- All checks that come before the extraction pass. -/
structure Extracts : Prop where
  url : report.url ≠ [] ∧ httpsUrl report.url = true
  unguarded : dest.take 16 ≠ str "/opt/pisecure/"
  stored : stored = true
  status : (curlStatus web report.url).1 = 200
  compared : report.sha256 = [] ∨ fileSha256 (archiveOf web report) = report.sha256
  sums : tarMember tar (archiveOf web report) (str "SHA256SUMS") ≠ []
  present : binMember web tar report member ≠ []
  listed : ∃ hash, Lists (archiveSums web tar report) (binMember web tar report member) hash

variable {places web tar stored report member dest}

/-- The member is listed exactly when some hash is found for it. -/
theorem foundHash_lists (nonempty : foundHash web tar report member ≠ []) :
    Lists (archiveSums web tar report) (binMember web tar report member)
      (foundHash web tar report member) :=
  sumsHashFor_eq_iff.mp ⟨rfl, nonempty⟩

theorem Extracts.foundHash_ne_nil (extracts : Extracts web tar stored report member dest) :
    foundHash web tar report member ≠ [] := by
  obtain ⟨hash, listed⟩ := extracts.listed
  obtain ⟨found, nonempty⟩ := sumsHashFor_eq_iff.mpr listed
  rwa [foundHash, found]

/-- A download that does not get to the extraction ends without a trace. -/
theorem downloadMember_refused (stops : ¬Extracts web tar stored report member dest) :
    ∃ err, downloadMember web tar stored report member dest = .refused err := by
  unfold downloadMember
  split
  · exact ⟨_, rfl⟩
  next url =>
    split
    · exact ⟨_, rfl⟩
    next unguarded =>
      split
      · exact ⟨_, rfl⟩
      next temp =>
        dsimp only
        split
        · exact ⟨_, rfl⟩
        next status =>
          split
          · exact ⟨_, rfl⟩
          next compared =>
            split
            · exact ⟨_, rfl⟩
            next members =>
              split
              · exact ⟨_, rfl⟩
              next listed =>
                obtain ⟨given, https⟩ := not_or.mp url
                obtain ⟨sums, present⟩ := not_or.mp members
                rw [List.isEmpty_iff] at given sums present listed
                refine absurd ?_ stops
                exact ⟨⟨given, not_not.mp https⟩, unguarded, not_not.mp temp, not_not.mp status,
                  (not_and_or.mp compared).imp not_not.mp not_not.mp, sums, present,
                  _, foundHash_lists listed⟩

/-- The end of a download that gets to the extraction. -/
theorem downloadMember_extracts (extracts : Extracts web tar stored report member dest) :
    downloadMember web tar stored report member dest =
      match tarExtractFile tar (archiveOf web report) (binMember web tar report member) with
      | (.holds bytes, true) =>
          if fileSha256 bytes ≠ foundHash web tar report member then
            ⟨false, member ++ str " sha256 does not match SHA256SUMS", .removed, true⟩
          else ⟨true, [], .holds bytes, true⟩
      | (left, _) =>
          ⟨false, str "could not verify " ++ member, left, decide (left ≠ .untouched)⟩ := by
  have url : ¬(report.url.isEmpty = true ∨ ¬httpsUrl report.url = true) := by
    rw [List.isEmpty_iff]
    exact not_or.mpr ⟨extracts.url.1, not_not.mpr extracts.url.2⟩
  have compared : ¬(report.sha256 ≠ [] ∧
      fileSha256 (curlStatus web report.url).2 ≠ report.sha256) :=
    not_and_or.mpr (extracts.compared.imp not_not.mpr not_not.mpr)
  have members : ¬((tarMember tar (curlStatus web report.url).2 (str "SHA256SUMS")).isEmpty = true ∨
      (tarMember tar (curlStatus web report.url).2 member).isEmpty = true) := by
    rw [List.isEmpty_iff, List.isEmpty_iff]
    exact not_or.mpr ⟨extracts.sums, extracts.present⟩
  have listed : ¬(foundHash web tar report member).isEmpty = true := by
    rw [List.isEmpty_iff]
    exact extracts.foundHash_ne_nil
  unfold downloadMember
  rw [if_neg url, if_neg extracts.unguarded, if_neg (not_not.mpr extracts.stored)]
  dsimp only
  rw [if_neg (not_not.mpr extracts.status), if_neg compared, if_neg members]
  exact if_neg listed

theorem safe_refused (err : Bytes) : Safe places web tar report member dest (.refused err) :=
  ⟨fun ok => absurd ok Bool.false_ne_true, fun _ =>
    ⟨fun wrote => Bool.false_ne_true wrote.1, fun _ holds => nomatch holds⟩⟩

/-- What the destination must be for an extraction to be safe: outside of the install tree,
and without bytes from an extraction that fails. -/
structure Harmless (places : Places) (web : Web) (tar : Tar) (report : Report)
    (member dest : Bytes) : Prop where
  outside : ¬Installed places dest
  unwritten : ∀ written, tar.extraction = .cut written →
    (memberBytes web tar report member).take written = []

/-- An extraction that opens the destination is safe exactly when it is harmless. -/
theorem safe_iff_harmless (extracts : Extracts web tar stored report member dest)
    (opened : tar.extraction ≠ .unopened) :
    Safe places web tar report member dest (downloadMember web tar stored report member dest) ↔
      Harmless places web tar report member dest := by
  rw [downloadMember_extracts extracts, tarExtractFile]
  cases ended : tar.extraction with
  | unopened => exact absurd ended opened
  | cut written =>
      constructor
      · intro safe
        obtain ⟨unwritten, empty⟩ := safe.failed rfl
        refine ⟨fun installed => unwritten ⟨rfl, installed⟩, fun count same => ?_⟩
        rw [ended] at same
        cases same
        exact empty _ rfl
      · intro harmless
        refine ⟨fun ok => absurd ok Bool.false_ne_true, fun _ =>
          ⟨fun wrote => harmless.outside wrote.2, fun bytes holds => ?_⟩⟩
        cases holds
        exact harmless.unwritten written ended
  | whole =>
      have uncut : ∀ written, tar.extraction = .cut written →
          (memberBytes web tar report member).take written = [] := by
        intro written same
        rw [ended] at same
        cases same
      dsimp only
      split
      · exact ⟨fun safe => ⟨fun installed => (safe.failed rfl).1 ⟨rfl, installed⟩, uncut⟩,
          fun harmless => ⟨fun ok => absurd ok Bool.false_ne_true, fun _ =>
            ⟨fun wrote => harmless.outside wrote.2, fun _ holds => nomatch holds⟩⟩⟩
      next verified =>
        refine ⟨fun safe => ⟨(safe.returned rfl).1, uncut⟩, fun harmless => ⟨fun _ =>
          ⟨harmless.outside, _, _, rfl, foundHash_lists extracts.foundHash_ne_nil,
            not_not.mp verified⟩, fun failed => ?_⟩⟩
        exact absurd failed.symm Bool.false_ne_true

end Download

/-! ## An install path -/

/-- An archive with a program and its hash. -/
def sampleTar : Tar where
  members _ := [(str "pisecured", str "new"),
    (str "SHA256SUMS", fileSha256 (str "new") ++ str "  pisecured\n")]
  extraction := .whole

def sampleReport : Report :=
  ⟨.newer, [], str "v1", str "v9", str "https://a", [], str "pisecure-v9-x86_64.tar.gz"⟩

end Release

end PiSecure
