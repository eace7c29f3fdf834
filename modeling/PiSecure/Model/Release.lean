import PiSecure.General.Sha256
import PiSecure.Model.Codec

/-! # Releases

`release_update.cpp`: what a release document says about the archive for this
machine, and how a member of the archive is downloaded. Texts are byte strings, and the
document is the one that `json::parse` makes of what is downloaded. What the network
answers and what `tar` does is given.
-/

namespace PiSecure

namespace Release

/-- The bytes of a literal. -/
def str (text : String) : Bytes := Text.bytes text.toList

/-! ## Bytes and lines -/

/-- `std::isspace`. -/
def isSpaceByte (byte : UInt8) : Bool := byte == 32 || (9 ≤ byte && byte ≤ 13)

/-- `std::isdigit`. -/
def isDigitByte (byte : UInt8) : Bool := 48 ≤ byte && byte ≤ 57

/-- `std::isxdigit`. -/
def isHexByte (byte : UInt8) : Bool :=
  isDigitByte byte || (65 ≤ byte && byte ≤ 70) || (97 ≤ byte && byte ≤ 102)

/-- `std::tolower`. -/
def lowerByte (byte : UInt8) : UInt8 := if 65 ≤ byte ∧ byte ≤ 90 then byte + 32 else byte

/-- `trim`. -/
def trim (text : Bytes) : Bytes :=
  ((text.dropWhile isSpaceByte).reverse.dropWhile isSpaceByte).reverse

/-- What stands behind the last slash. -/
def afterSlash (name : Bytes) : Bytes := (name.reverse.takeWhile (· ≠ 47)).reverse

/-- What stands behind the first occurrence of a pattern. -/
def afterFirst (pattern : Bytes) : Bytes → Option Bytes
  | [] => if pattern.isEmpty then some [] else none
  | byte :: rest =>
      if pattern.isPrefixOf (byte :: rest) then some ((byte :: rest).drop pattern.length)
      else afterFirst pattern rest

/-- `https_url`. -/
def httpsUrl (url : Bytes) : Bool :=
  url.take 8 == str "https://" && !url.contains 39 && !url.contains 32

/-- `file_sha256`. -/
def fileSha256 (file : Bytes) : Bytes := Text.bytes ((Sha256.digest file).flatMap hexByte)

/-! ## Versions -/

/-- The numbers in a text, with the digits that are open. -/
def numbersFrom : Bytes → Option Nat → List Nat
  | [], open? => open?.toList
  | byte :: rest, open? =>
      if isDigitByte byte then numbersFrom rest (some (open?.getD 0 * 10 + (byte.toNat - 48)))
      else open?.toList ++ numbersFrom rest none

/-- `std::atoi` on digits: what is beyond a `long` is the largest one, and the low 32 bits of
that are the `int`. -/
def atoi (digits : Nat) : Int := (Int32.ofNat (min digits (2 ^ 63 - 1))).toInt

/-- `version_parts`. -/
def versionParts (text : Bytes) : List Int :=
  let text := trim text
  (numbersFrom (if text.head? = some 118 ∨ text.head? = some 86 then text.drop 1 else text)
    none).map atoi

/-- `compare_versions`: missing parts are zero. -/
def compareParts : List Int → List Int → Ordering
  | [], [] => .eq
  | [], right :: others => (compare 0 right).then (compareParts [] others)
  | left :: rest, [] => (compare left 0).then (compareParts rest [])
  | left :: rest, right :: others => (compare left right).then (compareParts rest others)

def compareVersions (left right : Bytes) : Ordering :=
  compareParts (versionParts left) (versionParts right)

/-! ## Names and hashes -/

/-- The architecture that the program is built for. -/
inductive Platform where
  | x86
  | arm

/-- What the name of an archive begins and ends with. -/
def Platform.affixes : Platform → Bytes × Bytes
  | .x86 => (str "pisecure-v", str "-x86_64.tar.gz")
  | .arm => (str "pisecure-pi5-v", str "-aarch64.tar.gz")

/-- `asset_name_ok`. -/
def assetNameOk (platform : Platform) (name : Bytes) : Bool :=
  let (front, back) := platform.affixes
  decide (name.length > front.length + back.length) && name.take front.length == front &&
    name.drop (name.length - back.length) == back

/-- `body_sha256`. -/
def bodySha256 (body : Bytes) : Bytes :=
  match afterFirst (str "sha256:") body with
  | none => []
  | some rest =>
      let hex := (rest.dropWhile fun byte => !isHexByte byte).takeWhile isHexByte |>.map lowerByte
      if hex.length = 64 then hex else []

/-- A line without its carriage return. -/
def chomp (line : Bytes) : Bytes := if line.getLast? = some 13 then line.dropLast else line

/-- The hash that a line of `SHA256SUMS` gives for a member. -/
def lineHash (member line : Bytes) : Option Bytes :=
  let line := chomp line
  let hex := (line.takeWhile isHexByte).map lowerByte
  if hex.length ≠ 64 then none
  else
    let rest := (line.dropWhile isHexByte).dropWhile isSpaceByte
    let name := if rest.head? = some 42 ∨ rest.head? = some 32 then rest.drop 1 else rest
    if afterSlash name = afterSlash member ∨ name = member then some hex else none

/-- `sums_hash_for`. -/
def sumsHashFor (sums member : Bytes) : Bytes :=
  ((sums.splitOn 10).findSome? (lineHash member)).getD []

/-! ## The network -/

/-- The status and the bytes that `curl` gets for a URL. -/
structure Web where
  get : Bytes → Nat × Bytes

/-- `curl_status`. -/
def curlStatus (web : Web) (url : Bytes) : Nat × Bytes :=
  if httpsUrl url then web.get url else (0, [])

/-! ## The release -/

/-- `value(key, "")`: a member that is absent is an empty text, and one that is no text is
thrown, as is a document that is no object. -/
def textOr (doc : Json) (key : String) : Option Bytes :=
  (doc.valueOr key Json.asText? []).map Text.bytes

/-- The assets of a release; none when they are no array. -/
def assetsOf (doc : Json) : List Json := (doc.array? "assets").getD []

inductive Kind where
  | current
  | newer
  | skipped
deriving DecidableEq

/-- `Report`. -/
structure Report where
  kind : Kind
  line : Bytes
  installed : Bytes
  tag : Bytes
  url : Bytes
  sha256 : Bytes
  asset : Bytes

/-- `local_version`, with what the version file holds. -/
def localVersion (versionFile : Option Bytes) (compileTime : Bytes) : Bytes :=
  match versionFile with
  | none => compileTime
  | some text => if (trim text).isEmpty then compileTime else trim text

/-- The archive of an asset, when its name is one. -/
def readArchive (platform : Platform) (report : Report) (asset : Json) (name : Bytes) :
    Option Report :=
  if assetNameOk platform name then
    (textOr asset "browser_download_url").map fun url => { report with asset := name, url := url }
  else some report

/-- The hash in the sums, when the asset is called so. -/
def readSums (web : Web) (stored : Bool) (report : Report) (asset : Json) (name : Bytes) :
    Option Report :=
  if name = str "SHA256SUMS" then
    (textOr asset "browser_download_url").map fun url =>
      if stored ∧ (curlStatus web url).1 = 200 then
        let hashed := sumsHashFor (curlStatus web url).2 report.asset
        if hashed.isEmpty then report else { report with sha256 := hashed }
      else report
  else some report

/-- One turn of the loop over the assets; `stored` tells whether the file for the sums
can be made. -/
def readAsset (platform : Platform) (web : Web) (stored : Bool) (report : Report) (asset : Json) :
    Option Report := do
  let name ← textOr asset "name"
  let report ← readArchive platform report asset name
  readSums web stored report asset name

/-- The end of `check_release`: what the report says. -/
def conclude (report : Report) : Report :=
  if report.tag.isEmpty ∨ report.url.isEmpty then { report with line := str "update check skipped" }
  else if compareVersions report.tag report.installed ≠ .gt then
    { report with
      kind := .current
      line := str "update check: " ++ report.tag ++ str " is current" }
  else
    { report with
      kind := .newer
      line := str "update available: " ++ report.tag ++ str " " ++ report.url ++
        if report.sha256.isEmpty then [] else str " sha256 " ++ report.sha256 }

/-- `check_release`, with what the version file holds and with the document, when that is
downloaded and parsed; none when it throws. -/
def checkRelease (platform : Platform) (web : Web) (stored : Bool) (versionFile : Option Bytes)
    (compileTime : Bytes) (latest : Option Json) : Option Report :=
  let installed := localVersion versionFile compileTime
  match latest with
  | none => some ⟨.skipped, str "update check skipped", installed, [], [], [], []⟩
  | some doc => do
      let tag ← textOr doc "tag_name"
      let body ← textOr doc "body"
      let report ← (assetsOf doc).foldlM (readAsset platform web stored)
        ⟨.skipped, [], installed, tag, [], bodySha256 body, []⟩
      return conclude report

/-! ## The archive -/

/-- How the extraction of a member ends: the destination cannot be opened, some bytes are
written before it fails, or all of them are written. -/
inductive Extraction where
  | unopened
  | cut (written : Nat)
  | whole

/-- What `tar` finds in a file, and how it extracts. -/
structure Tar where
  members : Bytes → List (Bytes × Bytes)
  extraction : Extraction

/-- A line of `tar -tzf` as `fgets` reads it, in pieces of 511 bytes. -/
def listedPieces (name : Bytes) : List Bytes := (name ++ [10]).toChunks 511

/-- `tar_member`. -/
def tarMember (tar : Tar) (file suffix : Bytes) : Bytes :=
  let lines := ((tar.members file).flatMap fun entry => listedPieces entry.1).map trim
  (lines.find? fun name => name == suffix || (suffix.length < name.length &&
    name.drop (name.length - suffix.length) == suffix &&
    name[name.length - suffix.length - 1]? == some 47)).getD []

/-- `tar_text`: the contents of all members of a name. -/
def tarText (tar : Tar) (file member : Bytes) : Bytes :=
  (tar.members file).flatMap fun entry => if entry.1 = member then entry.2 else []

/-- What a download leaves at its destination. -/
inductive Left where
  | untouched
  | holds (bytes : Bytes)
  | removed
deriving DecidableEq

/-- `tar_extract_file`. -/
def tarExtractFile (tar : Tar) (file member : Bytes) : Left × Bool :=
  match tar.extraction with
  | .unopened => (.untouched, false)
  | .cut written => (.holds ((tarText tar file member).take written), false)
  | .whole => (.holds (tarText tar file member), true)

/-- What a download returns, the reason when it fails, what it leaves at the destination and
whether it wrote there. -/
structure Outcome where
  ok : Bool
  err : Bytes
  left : Left
  wrote : Bool

/-- A download that ends before the destination is opened. -/
def Outcome.refused (err : Bytes) : Outcome := ⟨false, err, .untouched, false⟩

/-- `download_member`; `stored` tells whether the file for the archive can be made. -/
def downloadMember (web : Web) (tar : Tar) (stored : Bool) (report : Report) (member dest : Bytes) :
    Outcome :=
  if report.url.isEmpty ∨ ¬httpsUrl report.url then .refused (str "update check skipped")
  -- The source compares sixteen bytes with a text of fourteen.
  else if dest.take 16 = str "/opt/pisecure/" then
    .refused (str "refusing to replace a running install path")
  else if ¬stored then .refused (str "could not store the release download")
  else
    let answer := curlStatus web report.url
    if answer.1 ≠ 200 then .refused (str "update check skipped")
    else if report.sha256 ≠ [] ∧ fileSha256 answer.2 ≠ report.sha256 then
      .refused (str "release sha256 does not match")
    else
      let sumsMember := tarMember tar answer.2 (str "SHA256SUMS")
      let binMember := tarMember tar answer.2 member
      if sumsMember.isEmpty ∨ binMember.isEmpty then
        .refused (str "release archive has no " ++ member)
      else
        let expect := sumsHashFor (tarText tar answer.2 sumsMember) binMember
        if expect.isEmpty then .refused (str "could not verify " ++ member)
        else
          match tarExtractFile tar answer.2 binMember with
          | (.holds bytes, true) =>
              if fileSha256 bytes ≠ expect then
                ⟨false, member ++ str " sha256 does not match SHA256SUMS", .removed, true⟩
              else ⟨true, [], .holds bytes, true⟩
          | (left, _) =>
              ⟨false, str "could not verify " ++ member, left, decide (left ≠ .untouched)⟩

end Release

end PiSecure
