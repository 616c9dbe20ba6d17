-- SUMMARY: From the build to the device: what a device reads off the manifest of its target, and which image it commits.
import Mathlib
import HomeNode.Ota.Served
import HomeNode.Release.Latest

/-!
# From the build to the device

A device asks for the manifest that `ota/` holds for its target. The manifest of a
release fits the buffer and the fields of the device, and the image that it leads to is
the one that was built.
-/

namespace HomeNode.Release

open FileTree Ota

/-! ## The members of a manifest -/

/-- `tolower` -/
def lower (b : UInt8) : UInt8 := if 65 ≤ b ∧ b ≤ 90 then b + 32 else b

/-- `cJSON_GetObjectItem`: the first item of that name, in upper or lower case. -/
def getObjectItem (ms : List FlatJson.Member) (key : List UInt8) : Option FlatJson.Value :=
  (ms.find? fun m => m.1.map lower = key.map lower).map Prod.snd

/-- `cJSON_GetObjectItem` with `cJSON_IsString`. -/
def stringMember (ms : List FlatJson.Member) (key : List UInt8) : Option CStr :=
  match getObjectItem ms key with
  | some (.string s) => some (CStr.ofBuffer s)
  | _ => none

/-- `cJSON_GetObjectItem` with `cJSON_IsNumber`. A `valueint` does not go beyond `INT_MAX`. -/
def numberMember (ms : List FlatJson.Member) (key : List UInt8) : Option Int :=
  match getObjectItem ms key with
  | some (.number n) => some (min n (2 ^ 31 - 1) : Nat)
  | _ => none

/-- What the device looks up in an object. -/
def memberJson (ms : List FlatJson.Member) : Json where
  version := stringMember ms (CStr.ascii "version")
  firmwareUrl := stringMember ms (CStr.ascii "firmware_url")
  checksum := stringMember ms (CStr.ascii "checksum")
  firmwareSize := numberMember ms (CStr.ascii "firmware_size")

variable {w : Workflow} {t : Target} {v : Text} {image : Content} {date : Date}

theorem memberJson_manifestMembers : memberJson (manifestMembers w t v image date) =
    { version := some (CStr.ofBuffer (bytes v))
      firmwareUrl := some (CStr.ofBuffer (bytes (downloadUrl w.repository v (firmwareOtaName t v))))
      checksum := some (CStr.ofBuffer (bytes (w.sha256sum image)))
      firmwareSize := some (min image.length (2 ^ 31 - 1) : Nat) } := by
  rfl

/-! ## Its text -/

theorem plainByte_of_alphanum {c : Char} (h : c.isAlphanum) :
    FlatJson.plainByte c.toNat.toUInt8 := by
  have hrange : ∀ n < 128, (65 ≤ n ∧ n ≤ 90 ∨ 97 ≤ n ∧ n ≤ 122) ∨ 48 ≤ n ∧ n ≤ 57 →
      FlatJson.plainByte n.toUInt8 := by decide
  have hnat : (65 ≤ c.toNat ∧ c.toNat ≤ 90 ∨ 97 ≤ c.toNat ∧ c.toNat ≤ 122) ∨
      48 ≤ c.toNat ∧ c.toNat ≤ 57 := by
    simpa [Char.isAlphanum, Char.isAlpha, Char.isUpper, Char.isLower, Char.isDigit,
      UInt32.le_iff_toNat_le] using h
  exact hrange c.toNat (by omega) hnat

/-- The characters of the texts in a manifest. -/
def urlChar (c : Char) : Bool := wordChar c || c = '/' || c = ':'

theorem plainByte_of_urlChar {c : Char} (h : urlChar c) : FlatJson.plainByte c.toNat.toUInt8 := by
  have hmarks : ['.', '_', '-', '+', '/', ':'].all fun c => FlatJson.plainByte c.toNat.toUInt8 := by
    decide
  by_cases halnum : c.isAlphanum
  · exact plainByte_of_alphanum halnum
  · apply List.all_eq_true.mp hmarks
    simpa [urlChar, wordChar, halnum, or_assoc] using h

theorem plain_bytes {u : Text} (h : u.all urlChar) : (bytes u).all FlatJson.plainByte := by
  rw [bytes, List.all_map, List.all_eq_true]
  exact fun c hc => plainByte_of_urlChar (List.all_eq_true.mp h c hc)

theorem urlChar_of_word {u : Text} (h : u.all wordChar) : u.all urlChar := by
  rw [List.all_eq_true] at h ⊢
  intro c hc
  simp [urlChar, h c hc]

theorem Repository.url (repo : Repository) : repo.text.all urlChar := by
  have hword := urlChar_of_word repo.word
  rw [List.all_append, Bool.and_eq_true] at hword
  have hslash : urlChar '/' := by decide
  simp [Repository.text, hword.1, hword.2, hslash]

theorem Target.url (t : Target) : t.text.all urlChar := by
  cases t <;> decide

theorem downloadUrl_url (repo : Repository) (hv : v.all urlChar) :
    (downloadUrl repo v (firmwareOtaName t v)).all urlChar := by
  have hfixed : githubUrl.all urlChar ∧ downloadPath.all urlChar ∧ firmwareOta.all urlChar ∧
      Flash.binExt.all urlChar ∧ ['/'].all urlChar ∧ ['-'].all urlChar := by decide
  obtain ⟨hgithub, hdownload, hfirmware, hext, hslash, hdash⟩ := hfixed
  simp only [downloadUrl, firmwareOtaName, List.all_append, hgithub, hdownload, hfirmware, hext,
    hslash, hdash, repo.url, t.url, hv, Bool.and_self]

theorem changelogUrl_url (repo : Repository) (hv : v.all urlChar) :
    (changelogUrl repo v).all urlChar := by
  have hfixed : githubUrl.all urlChar ∧ tagPath.all urlChar := by decide
  simp only [changelogUrl, List.all_append, hfixed.1, hfixed.2, repo.url, hv, Bool.and_self]

/-- The manifest of a tag needs no escapes, and its number is an `int`. -/
theorem plain_manifestMembers (hv : v.all wordChar) (himage : image.length < 2 ^ 31) :
    FlatJson.plain (manifestMembers w t v image date) := by
  have hurl := urlChar_of_word hv
  have hdate : date.text.all urlChar := by
    have hdigits := date.digits
    rw [List.all_eq_true] at hdigits ⊢
    intro c hc
    rcases Bool.or_eq_true _ _ ▸ hdigits c hc with h | h
    · simp [urlChar, h]
    · simp [urlChar, decide_eq_true_eq.mp h]
  have hkeys : ∀ s ∈ ["version", "target", "firmware_url", "firmware_size", "checksum",
      "release_date", "changelog_url"], (CStr.ascii s).all FlatJson.plainByte := by decide
  have hsize : decide (image.length ≤ 2147483647) = true := decide_eq_true (by omega)
  simp only [FlatJson.plain, manifestMembers, List.all_cons, List.all_nil, FlatJson.Value.plain,
    hsize,
    plain_bytes hurl, plain_bytes t.url, plain_bytes (downloadUrl_url w.repository hurl),
    plain_bytes (urlChar_of_word (w.sha256sum_word image)), plain_bytes hdate,
    plain_bytes (changelogUrl_url w.repository hurl), Bool.and_true]
  simp only [Bool.and_eq_true]
  refine ⟨hkeys _ ?_, hkeys _ ?_, hkeys _ ?_, hkeys _ ?_, hkeys _ ?_, hkeys _ ?_, hkeys _ ?_⟩ <;>
    simp

theorem nodup_manifestMembers : ((manifestMembers w t v image date).map Prod.fst).Nodup := by
  have hkeys : (["version", "target", "firmware_url", "firmware_size", "checksum", "release_date",
      "changelog_url"].map CStr.ascii).Nodup := by decide
  exact hkeys

theorem length_downloadUrl (repo : Repository) (t : Target) (v : Text) :
    (downloadUrl repo v (firmwareOtaName t v)).length = 64 + repo.text.length + 2 * v.length := by
  have hgithub : githubUrl.length = 19 := rfl
  have hdownload : downloadPath.length = 19 := rfl
  have hfirmware : firmwareOta.length = 13 := rfl
  have hext : Flash.binExt.length = 4 := rfl
  simp only [downloadUrl, firmwareOtaName, List.length_append, hgithub, hdownload, hfirmware, hext,
    t.length_text, List.length_singleton]
  omega

/-- How long the manifest is, up to its last brace. -/
def manifestLength (w : Workflow) (v : Text) (image : Content) : Nat :=
  329 + 2 * w.repository.text.length + 4 * v.length + (Decimal.numeral image.length).length

theorem length_manifest :
    (FlatJson.objectText (manifestMembers w t v image date)).length = manifestLength w v image := by
  have htag : tagPath.length = 14 := rfl
  have hgithub : githubUrl.length = 19 := rfl
  have hascii : ∀ s, (CStr.ascii s).length = s.toList.length := fun s => List.length_map _
  simp only [FlatJson.objectText, manifestMembers, FlatJson.membersText, FlatJson.memberText,
    FlatJson.quote, FlatJson.Value.text, List.length_append, length_bytes, t.length_text,
    length_downloadUrl, changelogUrl, htag, hgithub, w.sha256sum_length, date.length, hascii,
    manifestLength]
  simp
  omega

theorem manifestLength_fits (hrepo : w.repository.text.length ≤ 140) (hv : v.length ≤ 63)
    (himage : image.length < 2 ^ 31) : manifestLength w v image ≤ maxHttpRecvBuffer - 1 := by
  have hdigits : (Decimal.numeral image.length).length ≤ 10 := by
    rw [Decimal.length_numeral_le_iff (by decide)]
    omega
  simp only [manifestLength, maxHttpRecvBuffer]
  omega

/-! ## The device -/

/-- What a device has stored of a manifest. Only the version may have been cut. -/
structure Stored (m : Manifest) (w : Workflow) (t : Target) (v : Text) (image : Content) :
    Prop where
  version : m.version.str = (CStr.ofBuffer (bytes v)).take 63
  firmwareUrl : m.firmwareUrl.str =
    CStr.ofBuffer (bytes (downloadUrl w.repository v (firmwareOtaName t v)))
  checksum : m.checksum.str = CStr.ofBuffer (bytes (w.sha256sum image))
  firmwareSize : m.firmwareSize = image.length

theorem take_ofBuffer {bs : List UInt8} {n : Nat} (h : bs.length ≤ n) :
    (CStr.ofBuffer bs).take n = CStr.ofBuffer bs :=
  (CStr.take_eq_self_iff _ n).mpr ((CStr.length_ofBuffer_le bs).trans h)

/-- The fields of the device hold a manifest that its buffer holds. -/
theorem stored_of_holds {m : Manifest} (hfits : manifestLength w v image ≤ maxHttpRecvBuffer - 1)
    (himage : image.length < 2 ^ 31) (h : m.Holds (memberJson (manifestMembers w t v image date))) :
    Stored m w t v image := by
  rw [memberJson_manifestMembers] at h
  have hurl : (bytes (downloadUrl w.repository v (firmwareOtaName t v))).length ≤ 511 := by
    rw [length_bytes, length_downloadUrl]
    simp only [manifestLength, maxHttpRecvBuffer] at hfits
    omega
  have hsum : (bytes (w.sha256sum image)).length ≤ 64 := by
    rw [length_bytes, w.sha256sum_length]
  constructor
  · exact h.version.str
  · rw [h.firmwareUrl.str, Option.getD_some, take_ofBuffer hurl]
  · rw [h.checksum.str, Option.getD_some, take_ofBuffer hsum]
  · rw [h.firmwareSize, Option.getD_some]
    omega

/-- The manifest of a tag is fetched exactly if it fits the buffer up to its last brace, unless
the connection fails. -/
theorem fetch_createOtaManifest {cfg : Config} {e : FetchEnv} {lossy : Bool}
    (hparse : FlatJson.Parses cfg.cjsonParse memberJson) (hv : v.all wordChar)
    (himage : image.length < 2 ^ 31) (s : OtaState) (hopen : e.openOk = true)
    (hstatus : e.status = 200)
    (hserves : Serves lossy (maxHttpRecvBuffer - 1) (createOtaManifest w t v image date) e.reads) :
    (lossy = false → (fetchOtaManifest cfg s e).ret =
        some (decide (manifestLength w v image ≤ maxHttpRecvBuffer - 1))) ∧
      ((fetchOtaManifest cfg s e).ret = some true →
        responseManifest cfg s e = some (memberJson (manifestMembers w t v image date)) ∧
          Stored (fetchOtaManifest cfg s e).state.manifest w t v image) := by
  have hline : bytes ['\n'] = [10] := rfl
  have hplain : FlatJson.plain (manifestMembers w t v image date) :=
    plain_manifestMembers hv himage
  have htext := hparse.take hplain nodup_manifestMembers (maxHttpRecvBuffer - 1)
  rw [length_manifest, ← hline] at htext
  obtain ⟨hwhole, hresponse⟩ := fetchOtaManifest_serves cfg s hopen hstatus hserves htext
  refine ⟨fun h => ?_, fun hret => ?_⟩
  · rw [hwhole h]
    split <;> simp [*]
  · obtain ⟨json, hjson, hholds⟩ := fetchOtaManifest_holds hret
    rw [hresponse hret] at hjson ⊢
    obtain ⟨hfits, hmembers⟩ := Option.ite_none_right_eq_some.mp hjson
    rw [← Option.some.inj hmembers] at hholds
    exact ⟨if_pos hfits, stored_of_holds hfits himage hholds⟩

/-- However the network cuts it, the manifest of a release with an image below 2 GiB is fetched
exactly if it fits the buffer up to its last brace. In a repository with a name of at most 140
characters it does so for every tag of at most 63 characters, and the device knows the whole of
what was released. -/
theorem release_reaches_device {cfg : Config} {e : FetchEnv} (tag : Tag)
    (hparse : FlatJson.Parses cfg.cjsonParse memberJson) (himage : image.length < 2 ^ 31)
    (s : OtaState) (hopen : e.openOk = true) (hstatus : e.status = 200)
    (hserves : Serves false (maxHttpRecvBuffer - 1)
      (createOtaManifest w t tag.text image date) e.reads) :
    ((fetchOtaManifest cfg s e).ret = some true ↔
        manifestLength w tag.text image ≤ maxHttpRecvBuffer - 1) ∧
      (w.repository.text.length ≤ 140 → tag.text.length ≤ 63 →
        (fetchOtaManifest cfg s e).ret = some true ∧
          Stored (fetchOtaManifest cfg s e).state.manifest w t tag.text image ∧
          (fetchOtaManifest cfg s e).state.manifest.version.str =
            CStr.ofBuffer (bytes tag.text)) := by
  obtain ⟨hwhole, hstored⟩ := fetch_createOtaManifest hparse tag.word himage s hopen hstatus
    hserves
  have hret := hwhole rfl
  refine ⟨by rw [hret, Option.some.injEq, decide_eq_true_eq], fun hrepo htag => ?_⟩
  have hfetched : (fetchOtaManifest cfg s e).ret = some true := by
    rw [hret, decide_eq_true (manifestLength_fits hrepo htag himage)]
  have hall := (hstored hfetched).2
  refine ⟨hfetched, hall, ?_⟩
  rw [hall.version, take_ofBuffer (by rw [length_bytes]; exact htag)]

/-- The address of the image of a release. -/
def ReleaseJob.imageUrl (j : ReleaseJob w) (t : Target) : Text :=
  downloadUrl w.repository j.version (firmwareOtaName t j.version)

/-- An image that a device comes to commit is the one that was announced. -/
theorem Announces.committable {ι : Type} {f : Forge ι} {j : ReleaseJob w} {m img : Content}
    {cfg : Config} {s : OtaState} {e : CycleEnv} (h : Announces f j t m image)
    (hparse : FlatJson.Parses cfg.cjsonParse memberJson) (himage : image.length < 2 ^ 31)
    (hserves : Serves true (maxHttpRecvBuffer - 1) m e.manifest.reads)
    (hstream : (fetchOtaManifest cfg s.cleared e.manifest).state.manifest.firmwareUrl.str =
      CStr.ofBuffer (bytes (j.imageUrl t)) → Streams image [] e.reads)
    (himg : Ota.committable cfg s e = some img) :
    img = image ∧ responseManifest cfg s.cleared e.manifest =
        some (memberJson (manifestMembers w t j.version image (j.run.build t).date)) ∧
      Stored (fetchOtaManifest cfg s.cleared e.manifest).state.manifest w t j.version image := by
  have hret := requestsFirmware_fetched (committable_requests himg)
  obtain ⟨hopen, hstatus⟩ := fetchOtaManifest_answered hret
  obtain ⟨-, hfetched⟩ := fetch_createOtaManifest hparse j.run.refName.word himage s.cleared hopen
    hstatus (h.text ▸ hserves)
  obtain ⟨hresponse, hstored⟩ := hfetched hret
  exact ⟨committable_streams (hstream hstored.firmwareUrl) himg, hresponse, hstored⟩

/-! ### A sample device -/

def sampleDevice : Config := { sampleConfig with cjsonParse := FlatJson.parse memberJson }

/-- The manifest comes in one piece. -/
def sampleFetch : FetchEnv where
  openOk := true
  reads := [⟨.data sampleText, false⟩, ⟨.data [], true⟩]

theorem sampleFetch_serves (lossy : Bool) :
    Serves lossy (maxHttpRecvBuffer - 1) sampleText sampleFetch.reads := by
  have hpos : sampleText ≠ [] := by decide +kernel
  have hroom : sampleText.length < maxHttpRecvBuffer - 1 := by decide +kernel
  have hserves : Serves lossy (maxHttpRecvBuffer - 1) (sampleText ++ []) sampleFetch.reads :=
    .piece hpos hroom .done
  rwa [List.append_nil] at hserves

theorem sampleDevice_parses : FlatJson.Parses sampleDevice.cjsonParse memberJson :=
  FlatJson.parses_parse memberJson

theorem release_reaches_device_sample :
    (fetchOtaManifest sampleDevice .init sampleFetch).ret = some true ∧
      (fetchOtaManifest sampleDevice .init sampleFetch).state.manifest.version.str =
        CStr.ofBuffer (bytes "v1.0".toList) := by
  obtain ⟨-, hfits⟩ := release_reaches_device stableTag sampleDevice_parses (by decide +kernel)
    .init rfl rfl (sampleFetch_serves false)
  obtain ⟨hret, -, hversion⟩ := hfits (by decide) (by decide)
  exact ⟨hret, hversion⟩

end HomeNode.Release
