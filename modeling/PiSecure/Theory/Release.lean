import PiSecure.Theory.Sums

/-! # The hash of an archive

The hash that a release publishes for its archive is found when the archive stands
before the sums among the assets. In the other order the sums are searched for a
member without a name, and the hash in the text of the release is kept. A document with
something else where a text is read is not reported at all.
-/

namespace PiSecure

namespace Release

/-! ## Assets that count -/

/-- The archive of a platform. -/
def isArchive (platform : Platform) (asset : Json) : Bool :=
  (textOr asset "name").any (assetNameOk platform)

/-- The asset with the hashes. -/
def isSums (asset : Json) : Bool := textOr asset "name" == some (str "SHA256SUMS")

theorem sums_not_archive (platform : Platform) {asset : Json} (sums : isSums asset = true) :
    isArchive platform asset = false := by
  rw [isArchive, eq_of_beq sums, Option.any_some]
  cases platform <;> decide

/-- The archive of a platform, or the asset with the hashes. -/
def counts (platform : Platform) (asset : Json) : Bool := isArchive platform asset || isSums asset

section Loop

variable {platform : Platform} {web : Web} {stored : Bool} {report : Report} {asset : Json}
  {name url : Bytes}

theorem readArchive_other (notArchive : isArchive platform asset = false)
    (named : textOr asset "name" = some name) :
    readArchive platform report asset name = some report := by
  rw [isArchive, named, Option.any_some] at notArchive
  rw [readArchive, notArchive, if_neg Bool.false_ne_true]

theorem readSums_other (notSums : isSums asset = false) (named : textOr asset "name" = some name) :
    readSums web stored report asset name = some report := by
  rw [isSums, named, beq_eq_false_iff_ne] at notSums
  rw [readSums, if_neg fun same => notSums (congrArg some same)]

/-- An asset whose name is no text is thrown. -/
theorem readAsset_unnamed (unnamed : textOr asset "name" = none) :
    readAsset platform web stored report asset = none := by
  rw [readAsset, unnamed]
  rfl

theorem readAsset_other (other : counts platform asset = false)
    (named : textOr asset "name" = some name) :
    readAsset platform web stored report asset = some report := by
  obtain ⟨notArchive, notSums⟩ := Bool.or_eq_false_iff.mp other
  rw [readAsset, named]
  change (readArchive platform report asset name).bind _ = _
  rw [readArchive_other notArchive named]
  exact readSums_other notSums named

theorem readAsset_archive (archive : isArchive platform asset = true)
    (named : textOr asset "name" = some name) :
    readAsset platform web stored report asset =
      (textOr asset "browser_download_url").map fun url =>
        { report with asset := name, url := url } := by
  have notSums : isSums asset = false := by
    by_contra sums
    rw [sums_not_archive platform (Bool.not_eq_false _ ▸ sums)] at archive
    exact Bool.false_ne_true archive
  have ok : assetNameOk platform name = true := by
    rwa [isArchive, named, Option.any_some] at archive
  rw [readAsset, named]
  change (readArchive platform report asset name).bind _ = _
  rw [readArchive, if_pos ok]
  cases textOr asset "browser_download_url" with
  | none => rfl
  | some url => exact readSums_other notSums named

/-- The hash that is found for a name, or the one that was there before. -/
def hashOr (text name before : Bytes) : Bytes :=
  if (sumsHashFor text name).isEmpty then before else sumsHashFor text name

theorem readAsset_sums {text : Bytes} (sums : isSums asset = true)
    (linked : textOr asset "browser_download_url" = some url)
    (answered : curlStatus web url = (200, text)) :
    readAsset platform web true report asset =
      some { report with sha256 := hashOr text report.asset report.sha256 } := by
  have named := eq_of_beq sums
  rw [readAsset, named]
  change (readArchive platform report asset (str "SHA256SUMS")).bind _ = _
  rw [readArchive_other (sums_not_archive platform sums) named]
  change readSums web true report asset (str "SHA256SUMS") = _
  rw [readSums, if_pos rfl, linked, Option.map_some, answered, if_pos ⟨rfl, rfl⟩, hashOr]
  dsimp only
  split <;> rfl

/-- Only the assets that count play a part, when all of them have names. -/
theorem foldlM_counts {assets : List Json}
    (names : ∀ asset ∈ assets, (textOr asset "name").isSome = true) :
    assets.foldlM (readAsset platform web stored) report =
      (assets.filter (counts platform)).foldlM (readAsset platform web stored) report := by
  induction assets generalizing report with
  | nil => rfl
  | cons asset rest ih =>
      obtain ⟨first, others⟩ := List.forall_mem_cons.mp names
      rw [List.foldlM_cons, List.filter_cons]
      cases counted : counts platform asset with
      | true =>
          rw [if_pos rfl, List.foldlM_cons]
          exact congrArg _ (funext fun next => ih others)
      | false =>
          obtain ⟨name, named⟩ := Option.isSome_iff_exists.mp first
          rw [readAsset_other counted named, if_neg Bool.false_ne_true]
          exact ih others

/-- An asset without a name among the others is thrown in the end. -/
theorem foldlM_unnamed {assets : List Json}
    (unnamed : ∃ asset ∈ assets, textOr asset "name" = none) :
    assets.foldlM (readAsset platform web stored) report = none := by
  induction assets generalizing report with
  | nil =>
      obtain ⟨_, impossible, _⟩ := unnamed
      cases impossible
  | cons asset rest ih =>
      rw [List.foldlM_cons]
      obtain ⟨bad, member, nameless⟩ := unnamed
      rcases List.mem_cons.mp member with rfl | later
      · rw [readAsset_unnamed nameless]
        rfl
      · cases readAsset platform web stored report asset with
        | none => rfl
        | some next => exact ih ⟨bad, later, nameless⟩

/-- The loop over two assets. -/
theorem foldlM_two (step : Report → Json → Option Report) (one other : Json) :
    [one, other].foldlM step report = (step report one).bind fun next => step next other := by
  rw [List.foldlM_cons]
  refine congrArg (Option.bind (step report one)) (funext fun next => ?_)
  rw [List.foldlM_cons]
  cases step next other <;> rfl

end Loop

@[simp] theorem conclude_sha256 (report : Report) : (conclude report).sha256 = report.sha256 := by
  unfold conclude
  split
  · rfl
  · split <;> rfl

/-! ## The two orders -/

/-- A list with one item of each of two kinds has one of two orders. -/
theorem two_orders {Item : Type} {first second : Item → Bool} {items : List Item} {one other : Item}
    (exclusive : ∀ item, second item = true → first item = false)
    (firsts : items.filter first = [one]) (seconds : items.filter second = [other]) :
    items.filter (fun item => first item || second item) = [one, other] ∨
      items.filter (fun item => first item || second item) = [other, one] := by
  induction items with
  | nil => cases firsts
  | cons item rest ih =>
      rw [List.filter_cons] at firsts seconds
      rw [List.filter_cons]
      cases isFirst : first item with
      | true =>
          have notSecond : second item = false := Bool.eq_false_iff.mpr fun isSecond =>
            Bool.false_ne_true ((exclusive item isSecond).symm.trans isFirst)
          rw [isFirst, if_pos rfl, List.cons.injEq] at firsts
          rw [notSecond, if_neg Bool.false_ne_true] at seconds
          left
          rw [Bool.true_or, if_pos rfl, firsts.1]
          refine congrArg (one :: ·) ?_
          rw [← seconds]
          refine List.filter_congr fun later member => ?_
          rw [List.filter_eq_nil_iff] at firsts
          rw [Bool.eq_false_iff.mpr (firsts.2 later member), Bool.false_or]
      | false =>
          rw [isFirst, if_neg Bool.false_ne_true] at firsts
          cases isSecond : second item with
          | true =>
              rw [isSecond, if_pos rfl, List.cons.injEq] at seconds
              right
              rw [Bool.or_true, if_pos rfl, seconds.1]
              refine congrArg (other :: ·) ?_
              rw [← firsts]
              refine List.filter_congr fun later member => ?_
              rw [List.filter_eq_nil_iff] at seconds
              rw [Bool.eq_false_iff.mpr (seconds.2 later member), Bool.or_false]
          | false =>
              rw [isSecond, if_neg Bool.false_ne_true] at seconds
              rw [Bool.false_or, if_neg Bool.false_ne_true]
              exact ih firsts seconds

/-- The document with its assets in another order. -/
def reordered (doc : Json) (order : List Json) : Json := doc.set "assets" (.array order)

/-- A release with one archive and one downloadable asset of hashes, which lists the archive. -/
structure Published (platform : Platform) (web : Web) (doc : Json) where
  assets : List Json
  archive : Json
  sums : Json
  name : Bytes
  url : Bytes
  text : Bytes
  hash : Bytes
  has_assets : doc.get? "assets" = some (.array assets)
  one_archive : assets.filter (isArchive platform) = [archive]
  named : textOr archive "name" = some name
  one_sums : assets.filter isSums = [sums]
  linked : textOr sums "browser_download_url" = some url
  downloadable : curlStatus web url = (200, text)
  listed : Lists text name hash

namespace Published

variable {platform : Platform} {web : Web} {doc : Json} {order : List Json}
  {versionFile : Option Bytes} {compileTime : Bytes} (published : Published platform web doc)

/-- The archive stands before the hashes. -/
def ArchiveFirst (order : List Json) : Prop := [published.archive, published.sums].Sublist order

/-- The hash that is kept when the archive is not known yet: the one that is found for a member
without a name, or the one in the text of the release. -/
def fallback : Bytes := hashOr published.text [] (bodySha256 ((textOr doc "body").getD []))

/-- Whatever is read of the release is a text or absent. -/
structure Readable : Prop where
  tag : (textOr doc "tag_name").isSome = true
  body : (textOr doc "body").isSome = true
  names : ∀ asset ∈ published.assets, (textOr asset "name").isSome = true
  url : (textOr published.archive "browser_download_url").isSome = true

theorem archive_ok : isArchive platform published.archive = true := by
  have member : published.archive ∈ [published.archive] := List.mem_cons_self
  rw [← published.one_archive] at member
  exact (List.mem_filter.mp member).2

theorem sums_ok : isSums published.sums = true := by
  have member : published.sums ∈ [published.sums] := List.mem_cons_self
  rw [← published.one_sums] at member
  exact (List.mem_filter.mp member).2

include published

theorem isObject : doc.isObject = true := Json.isObject_of_get? published.has_assets

theorem textOr_reordered {key : String} (other : key ≠ "assets") :
    textOr (reordered doc order) key = textOr doc key := by
  have kept := Json.get?_set doc published.isObject "assets" key (.array order)
  rw [if_neg other] at kept
  have isObject : (reordered doc order).isObject = true := by
    rw [reordered, Json.isObject_set, published.isObject]
  refine congrArg (Option.map Text.bytes) ?_
  change (reordered doc order).get? key = doc.get? key at kept
  cases found : doc.get? key with
  | none =>
      rw [Json.valueOr_of_absent published.isObject found,
        Json.valueOr_of_absent isObject (kept.trans found)]
  | some value =>
      rw [Json.valueOr_of_get? found, Json.valueOr_of_get? (kept.trans found)]

theorem assetsOf_reordered : assetsOf (reordered doc order) = order := by
  have written := Json.get?_set doc published.isObject "assets" "assets" (.array order)
  rw [if_pos rfl] at written
  rw [assetsOf, Json.array?, reordered, written]
  rfl

/-- The orders of the two assets that count. -/
theorem orders (same : order.Perm published.assets) :
    order.filter (counts platform) = [published.archive, published.sums] ∨
      order.filter (counts platform) = [published.sums, published.archive] := by
  refine two_orders (fun _ => sums_not_archive platform) ?_ ?_
  · have part := same.filter (isArchive platform)
    rw [published.one_archive] at part
    exact List.perm_singleton.mp part
  · have part := same.filter isSums
    rw [published.one_sums] at part
    exact List.perm_singleton.mp part

/-- When the archive stands first, the hash is the listed one. -/
theorem hashOr_listed (before : Bytes) :
    hashOr published.text published.name before = published.hash := by
  obtain ⟨found, nonempty⟩ := sumsHashFor_eq_iff.mpr published.listed
  rw [hashOr, found, if_neg fun none => nonempty (List.isEmpty_iff.mp none)]

/-- A release that cannot be read is not reported. -/
theorem checkRelease_unreadable (same : order.Perm published.assets)
    (unreadable : ¬published.Readable) :
    checkRelease platform web true versionFile compileTime (some (reordered doc order)) = none := by
  have tagEq : textOr (reordered doc order) "tag_name" = textOr doc "tag_name" :=
    published.textOr_reordered (by decide)
  have bodyEq : textOr (reordered doc order) "body" = textOr doc "body" :=
    published.textOr_reordered (by decide)
  unfold checkRelease
  dsimp only
  rw [tagEq, bodyEq, published.assetsOf_reordered]
  cases tag : textOr doc "tag_name" with
  | none => rfl
  | some tagText =>
      cases body : textOr doc "body" with
      | none => rfl
      | some bodyText =>
          change (order.foldlM (readAsset platform web true) _).bind _ = none
          by_cases names : ∀ asset ∈ order, (textOr asset "name").isSome = true
          · have url : textOr published.archive "browser_download_url" = none := by
              by_contra url
              refine unreadable ⟨by rw [tag]; rfl, by rw [body]; rfl, fun asset member =>
                names asset (same.mem_iff.mpr member), Option.isSome_iff_ne_none.mpr url⟩
            have thrown : ∀ report,
                readAsset platform web true report published.archive = none := by
              intro report
              rw [readAsset_archive published.archive_ok published.named, url]
              rfl
            rw [foldlM_counts names]
            rcases published.orders same with ordered | ordered
            · rw [ordered, foldlM_two, thrown]
              rfl
            · rw [ordered, foldlM_two, readAsset_sums published.sums_ok published.linked
                published.downloadable, Option.bind_some, thrown]
              rfl
          · simp only [not_forall] at names
            obtain ⟨asset, member, unnamed⟩ := names
            rw [foldlM_unnamed ⟨asset, member, Option.not_isSome_iff_eq_none.mp unnamed⟩]
            rfl

/-- The hash in the report of a release that can be read depends on the order. -/
theorem sha256_eq (same : order.Perm published.assets) (readable : published.Readable) :
    (published.ArchiveFirst order ∧ (checkRelease platform web true versionFile compileTime
        (some (reordered doc order))).map Report.sha256 = some published.hash) ∨
      ¬published.ArchiveFirst order ∧ (checkRelease platform web true versionFile compileTime
        (some (reordered doc order))).map Report.sha256 = some published.fallback := by
  have archive := published.archive_ok
  have sums := published.sums_ok
  have tagEq : textOr (reordered doc order) "tag_name" = textOr doc "tag_name" :=
    published.textOr_reordered (by decide)
  have bodyEq : textOr (reordered doc order) "body" = textOr doc "body" :=
    published.textOr_reordered (by decide)
  obtain ⟨tag, tagged⟩ := Option.isSome_iff_exists.mp readable.tag
  obtain ⟨body, bodied⟩ := Option.isSome_iff_exists.mp readable.body
  obtain ⟨url, linked⟩ := Option.isSome_iff_exists.mp readable.url
  have names : ∀ asset ∈ order, (textOr asset "name").isSome = true := fun asset member =>
    readable.names asset (same.mem_iff.mp member)
  have counted : [published.archive, published.sums].filter (counts platform) =
      [published.archive, published.sums] := by
    refine List.filter_eq_self.mpr (List.forall_mem_cons.mpr ⟨?_, List.forall_mem_singleton.mpr ?_⟩)
    · rw [counts, archive, Bool.true_or]
    · rw [counts, sums, Bool.or_true]
  have readsArchive : ∀ report, readAsset platform web true report published.archive =
      some { report with asset := published.name, url := url } := by
    intro report
    rw [readAsset_archive archive published.named, linked, Option.map_some]
  have readsSums : ∀ report, readAsset platform web true report published.sums =
      some { report with sha256 := hashOr published.text report.asset report.sha256 } :=
    fun report => readAsset_sums sums published.linked published.downloadable
  unfold checkRelease
  dsimp only
  rw [tagEq, bodyEq, published.assetsOf_reordered, tagged, bodied]
  change _ ∧ ((order.foldlM (readAsset platform web true) _).bind _).map _ = _ ∨
    _ ∧ ((order.foldlM (readAsset platform web true) _).bind _).map _ = _
  rw [foldlM_counts names]
  rcases published.orders same with ordered | ordered
  · refine Or.inl ⟨?_, ?_⟩
    · rw [ArchiveFirst, ← ordered]
      exact List.filter_sublist
    · rw [ordered, foldlM_two, readsArchive, Option.bind_some, readsSums]
      refine congrArg some ((conclude_sha256 _).trans ?_)
      exact published.hashOr_listed _
  · refine Or.inr ⟨fun first => ?_, ?_⟩
    · have part := first.filter (counts platform)
      rw [counted, ordered] at part
      have swapped := (List.cons.inj (part.eq_of_length rfl)).1
      rw [swapped, sums_not_archive platform sums] at archive
      exact Bool.false_ne_true archive
    · rw [ordered, foldlM_two, readsSums, Option.bind_some, readsArchive]
      refine congrArg some ((conclude_sha256 _).trans ?_)
      rw [fallback, bodied]
      rfl

end Published

/-- An asset with its name and its link. -/
def assetJson (name link : String) : Json :=
  .ofMembers [("name", .string name.toList), ("browser_download_url", .string link.toList)]

def sampleArchive : Json := assetJson "pisecure-v9-x86_64.tar.gz" "https://a"

def sampleSums : Json := assetJson "SHA256SUMS" "https://s"

/-- A line for the program, and one for the archive. -/
def sampleText : Bytes :=
  List.replicate 64 98 ++ str "  pisecured\n" ++
    (List.replicate 64 97 ++ str " *out/pisecure-v9-x86_64.tar.gz\n")

def sampleWeb : Web := ⟨fun _ => (200, sampleText)⟩

/-- A release without a hash in its text. -/
def sampleRelease (assets : List Json) : Json :=
  .ofMembers [("tag_name", .string "v9".toList), ("body", .string "notes".toList),
    ("assets", .array assets)]

def samplePublished : Published .x86 sampleWeb (sampleRelease [sampleArchive, sampleSums]) where
  assets := [sampleArchive, sampleSums]
  archive := sampleArchive
  sums := sampleSums
  name := str "pisecure-v9-x86_64.tar.gz"
  url := str "https://s"
  text := sampleText
  hash := List.replicate 64 97
  has_assets := rfl
  one_archive := rfl
  named := rfl
  one_sums := rfl
  linked := rfl
  downloadable := rfl
  listed := sumsHashFor_eq_iff.mp (by decide +kernel)

end Release

end PiSecure
