import PerpCarry.Lib.Files

/-!
# Ingestion.Download

The downloads of `python/perpcarry/ingestion/download.py`: `fetch`, `verify_checksum` and
`cached_fetch`.

A body is streamed to `<name>.part` and renamed into place when it is complete. The server, the
caller's `on_chunk` and the sleep between attempts are a `Host`: it says, attempt by attempt, what
is answered and what raises. A body that is cut off ends in an exception, after any of its chunks.

* `streamTo_streamed`: one attempt writes to the `.part` file only, and returns only with a whole
  body there.
* `attempts_kept`: the loop, by induction on the attempts left. After a failed attempt the `.part`
  file is gone, whatever was raised.
* `fetch_kept`: after `fetch` there is no `.part` file, and the destination is what it was or the
  body of one attempt.
* `cachedFetch_cached`: what a digest adds, with the cached copy in the way or not.
-/

namespace PerpCarry
namespace Ingestion
namespace Download

open Lib

/-! ## Paths, bytes and exceptions -/

/-- The path of a file: its directory and its name. -/
structure Path where
  parent : List String
  name : String
  deriving DecidableEq

namespace Path

/-- `dest.with_name(dest.name + ".part")`. -/
def part (dest : Path) : Path := { dest with name := dest.name ++ ".part" }

/-- `directory / segment`, for a segment without a slash. -/
def join (directory : Path) (segment : String) : Path :=
  if segment = "" ∨ segment = "." then directory
  else ⟨directory.parent ++ [directory.name], segment⟩

/-- `str(path)`; the first part of an absolute path is empty. -/
def text (path : Path) : String := "/".intercalate (path.parent ++ [path.name])

theorem part_ne (dest : Path) : dest.part ≠ dest := by
  intro h
  have hlength := congrArg (fun path : Path => path.name.length) h
  simp [part] at hlength

end Path

abbrev Bytes := List UInt8

abbrev FileSystem := Files Path Bytes

/-- What `fetch` can see of an exception: the class it catches by, and its text. -/
inductive Exc where
  /-- `httpx.TransportError` -/
  | transport (text : String)
  /-- `_Transient` -/
  | transient (text : String)
  /-- `DownloadError` -/
  | download (text : String)
  /-- `ChecksumMismatch` -/
  | checksumMismatch (text : String)
  /-- Any other `BaseException`. -/
  | other (text : String)
  deriving DecidableEq

namespace Exc

/-- `str(exc)`. -/
def text : Exc → String
  | transport text => text
  | transient text => text
  | download text => text
  | checksumMismatch text => text
  | other text => text

/-- `except (httpx.TransportError, _Transient)`. -/
def retried : Exc → Bool
  | transport _ => true
  | transient _ => true
  | _ => false

end Exc

/-! ## The other side -/

/-- A request that fails before there is a status, or a status with the body that follows it. The
body ends after its chunks: `none` says that it is complete. -/
inductive Response where
  | failed (exc : Exc)
  | answered (status : Nat) (chunks : List Bytes) (cut : Option Exc)

/-- What each attempt meets, the first being attempt 1. -/
structure Host where
  response : Nat → Response
  /-- `on_chunk`, with the attempt, the chunks before this one and the chunk's size. -/
  onChunk : Option (Nat → Nat → Nat → Option Exc)
  /-- `time.sleep` after an attempt. -/
  sleep : Nat → Option Exc

/-- `RETRY_STATUS`. -/
def retryStatus : List Nat := [408, 425, 429, 500, 502, 503, 504]

/-- What `on_chunk` raises, if there is one and it raises. -/
def Host.raised (host : Host) (attempt position size : Nat) : Option Exc :=
  host.onChunk.bind fun call => call attempt position size

/-! ## One attempt -/

/-- `for chunk in response.iter_bytes(chunk_size)`. -/
def writeChunks (host : Host) (attempt : Nat) (part : Path) (cut : Option Exc) :
    Nat → List Bytes → FileSystem → Except Exc Unit × FileSystem
  | _, [], fs =>
    match cut with
    | none => (.ok (), fs)
    | some exc => (.error exc, fs)
  | position, chunk :: rest, fs =>
    let fs := fs.append part chunk
    match host.raised attempt position chunk.length with
    | some exc => (.error exc, fs)
    | none => writeChunks host attempt part cut (position + 1) rest fs

/-- `_stream_to`. -/
def streamTo (host : Host) (attempt : Nat) (url : String) (part : Path) (fs : FileSystem) :
    Except Exc Unit × FileSystem :=
  match host.response attempt with
  | .failed exc => (.error exc, fs)
  | .answered status chunks cut =>
    if status ∈ retryStatus then (.error (.transient s!"HTTP {status} fetching {url}"), fs)
    else if 400 ≤ status then (.error (.download s!"HTTP {status} fetching {url}"), fs)
    else writeChunks host attempt part cut 0 chunks (fs.write part [])

/-- The attempt succeeds with this body: an accepted status, the whole body, and no exception from
`on_chunk` at any of its chunks. -/
def Host.Delivered (host : Host) (attempt : Nat) (body : Bytes) : Prop :=
  ∃ status chunks, host.response attempt = .answered status chunks none ∧
    status ∉ retryStatus ∧ status < 400 ∧ chunks.flatten = body ∧
    ∀ (position : Nat) (h : position < chunks.length),
      host.raised attempt position (chunks[position]).length = none

section Attempt

variable (host : Host) (attempt : Nat) (url : String) (part : Path) (cut : Option Exc)

/-- By induction on the chunks: what was written stays in front of them. -/
theorem writeChunks_written (chunks : List Bytes) :
    ∀ (position : Nat) (fs : FileSystem) (written : Bytes), fs part = some written →
      (∀ p, p ≠ part → (writeChunks host attempt part cut position chunks fs).2 p = fs p) ∧
      ((writeChunks host attempt part cut position chunks fs).1 = .ok () →
        cut = none ∧
        (writeChunks host attempt part cut position chunks fs).2 part =
          some (written ++ chunks.flatten) ∧
        ∀ (i : Nat) (h : i < chunks.length),
          host.raised attempt (position + i) (chunks[i]).length = none) := by
  induction chunks with
  | nil =>
    intro position fs written hwritten
    cases cut with
    | some exc => simp [writeChunks]
    | none => simp [writeChunks, hwritten]
  | cons chunk rest ih =>
    intro position fs written hwritten
    cases hraised : host.raised attempt position chunk.length with
    | some exc =>
      simp only [writeChunks, hraised]
      refine ⟨fun p hp => Files.append_other hp, ?_⟩
      intro h
      cases h
    | none =>
      simp only [writeChunks, hraised]
      obtain ⟨hframe, hok⟩ := ih (position + 1) (fs.append part chunk) (written ++ chunk)
        (Files.append_self hwritten)
      refine ⟨fun p hp => (hframe p hp).trans (Files.append_other hp), ?_⟩
      intro h
      obtain ⟨hcut, hbody, hquiet⟩ := hok h
      refine ⟨hcut, by simpa using hbody, ?_⟩
      intro i hi
      cases i with
      | zero => exact hraised
      | succ i =>
        have hi' : i < rest.length := by simpa using hi
        simpa [Nat.add_assoc, Nat.add_comm 1 i] using hquiet i hi'

/-- What an attempt does to the files: the `.part` file is the only one it writes, and when it
returns the whole body is there. -/
structure Streamed (host : Host) (attempt : Nat) (part : Path) (before after : FileSystem)
    (outcome : Except Exc Unit) : Prop where
  frame : ∀ p, p ≠ part → after p = before p
  whole : outcome = .ok () → ∃ body, host.Delivered attempt body ∧ after part = some body

theorem streamTo_streamed (fs : FileSystem) :
    Streamed host attempt part fs (streamTo host attempt url part fs).2
      (streamTo host attempt url part fs).1 := by
  cases hresponse : host.response attempt with
  | failed exc =>
    simp only [streamTo, hresponse]
    exact ⟨fun p _ => rfl, nofun⟩
  | answered status chunks cut =>
    simp only [streamTo, hresponse]
    split
    · exact ⟨fun p _ => rfl, nofun⟩
    · rename_i hretry
      split
      · exact ⟨fun p _ => rfl, nofun⟩
      · rename_i hstatus
        obtain ⟨hframe, hok⟩ := writeChunks_written host attempt part cut chunks 0
          (fs.write part []) [] Files.write_self
        refine ⟨fun p hp => (hframe p hp).trans (Files.write_other hp), ?_⟩
        intro h
        obtain ⟨hcut, hbody, hquiet⟩ := hok h
        have hquiet : ∀ (position : Nat) (h : position < chunks.length),
            host.raised attempt position (chunks[position]).length = none := by
          intro i hi
          simpa using hquiet i hi
        have hwhole : host.Delivered attempt chunks.flatten :=
          ⟨status, chunks, by rw [hresponse, hcut], hretry, by omega, rfl, hquiet⟩
        exact ⟨chunks.flatten, hwhole, by simpa using hbody⟩

end Attempt

/-! ## The attempts -/

/-- `str(last_error)`. -/
def lastText : Option Exc → String
  | none => "None"
  | some exc => exc.text

/-- The rest of the loop, with `remaining` attempts to go. -/
def attempts (host : Host) (url : String) (dest : Path) (retries : Nat) :
    Nat → Option Exc → FileSystem → Except Exc Path × FileSystem
  | 0, lastError, fs =>
    (.error (.download
      s!"failed to fetch {url} after {retries} attempts: {lastText lastError}"), fs)
  | remaining + 1, _, fs =>
    let attempt := retries - remaining
    match streamTo host attempt url dest.part fs with
    | (.ok (), fs) => (.ok dest, fs.replace dest.part dest)
    | (.error exc, fs) =>
      let fs := fs.unlink dest.part
      if exc.retried then
        if attempt < retries then
          match host.sleep attempt with
          | some interrupt => (.error interrupt, fs)
          | none => attempts host url dest retries remaining (some exc) fs
        else attempts host url dest retries remaining (some exc) fs
      else (.error exc, fs)

/-- `fetch`. Making the directory and closing the client change no file. -/
def fetch (host : Host) (url : String) (dest : Path) (retries : Nat) (fs : FileSystem) :
    Except Exc Path × FileSystem :=
  attempts host url dest retries retries none fs

/-- What a download may do to the files. -/
structure AllOrNothing (host : Host) (retries : Nat) (dest : Path) (before after : FileSystem)
    (outcome : Except Exc Path) : Prop where
  /-- No `.part` file remains. -/
  part : after dest.part = none
  others : ∀ p, p ≠ dest → p ≠ dest.part → after p = before p
  /-- A download that raises leaves the destination as it was. -/
  raised : ∀ exc, outcome = .error exc → after dest = before dest
  /-- One that returns leaves the whole body of one successful attempt. -/
  returned : ∀ path, outcome = .ok path → path = dest ∧ ∃ attempt body,
    1 ≤ attempt ∧ attempt ≤ retries ∧ host.Delivered attempt body ∧ after dest = some body

section Fetch

variable {host : Host} {url : String} {dest : Path} {retries : Nat}

/-- The `.part` file may have changed before. -/
theorem AllOrNothing.of_frame {before mid after : FileSystem} {outcome : Except Exc Path}
    (hframe : ∀ p, p ≠ dest.part → mid p = before p)
    (h : AllOrNothing host retries dest mid after outcome) :
    AllOrNothing host retries dest before after outcome where
  part := h.part
  others p hdest hpart := (h.others p hdest hpart).trans (hframe p hpart)
  raised exc hexc := (h.raised exc hexc).trans (hframe dest dest.part_ne.symm)
  returned := h.returned

theorem AllOrNothing.of_error {fs : FileSystem} {exc : Exc} (h : fs dest.part = none) :
    AllOrNothing host retries dest fs fs (.error exc) where
  part := h
  others _ _ _ := rfl
  raised _ _ := rfl
  returned := nofun

/-- An attempt that returned is renamed into place. -/
theorem AllOrNothing.of_streamed {attempt : Nat} {before after : FileSystem}
    (hfirst : 1 ≤ attempt) (hlast : attempt ≤ retries)
    (h : Streamed host attempt dest.part before after (.ok ())) :
    AllOrNothing host retries dest before (after.replace dest.part dest) (.ok dest) := by
  obtain ⟨body, hdelivered, hbody⟩ := h.whole rfl
  refine ⟨Files.replace_source, ?_, nofun, ?_⟩
  · intro p hdest hpart
    rw [Files.replace_other hpart hdest]
    exact h.frame p hpart
  · rintro path ⟨⟩
    refine ⟨rfl, attempt, body, hfirst, hlast, hdelivered, ?_⟩
    rw [Files.replace_target dest.part_ne.symm]
    exact hbody

/-- By induction on the attempts left. With none left the last one has removed the `.part` file;
before the first it may be anything. -/
theorem attempts_kept (remaining : Nat) :
    ∀ (lastError : Option Exc) (fs : FileSystem), remaining ≤ retries →
      (remaining = 0 → fs dest.part = none) →
      AllOrNothing host retries dest fs (attempts host url dest retries remaining lastError fs).2
        (attempts host url dest retries remaining lastError fs).1 := by
  induction remaining with
  | zero =>
    intro lastError fs _ hpart
    exact .of_error (hpart rfl)
  | succ remaining ih =>
    intro lastError fs hle _
    cases hresult : streamTo host (retries - remaining) url dest.part fs with
    | mk outcome mid =>
      have hstream : Streamed host (retries - remaining) dest.part fs mid outcome := by
        have h := streamTo_streamed host (retries - remaining) url dest.part fs
        rwa [hresult] at h
      cases outcome with
      | ok value =>
        simp only [attempts, hresult]
        exact .of_streamed (by omega) (by omega) hstream
      | error exc =>
        -- the handler removes the `.part` file before it sleeps, retries or raises again
        have hclean : (mid.unlink dest.part) dest.part = none := Files.unlink_self
        have hframe : ∀ p, p ≠ dest.part → (mid.unlink dest.part) p = fs p := by
          intro p hp
          rw [Files.unlink_other hp]
          exact hstream.frame p hp
        have hrest := ih (some exc) (mid.unlink dest.part) (by omega) (fun _ => hclean)
        simp only [attempts, hresult]
        apply AllOrNothing.of_frame hframe
        split
        · split
          · split
            · exact .of_error hclean
            · exact hrest
          · exact hrest
        · exact .of_error hclean

theorem fetch_kept (host : Host) (url : String) (dest : Path) (hretries : 1 ≤ retries)
    (fs : FileSystem) : AllOrNothing host retries dest fs (fetch host url dest retries fs).2
      (fetch host url dest retries fs).1 :=
  attempts_kept retries none fs (Nat.le_refl _) (by omega)

end Fetch

/-! ## Digests -/

/-- The digest of `integrity.sha256`, in lower-case hexadecimal, and `str.lower`. -/
structure Hashing where
  sha256 : Bytes → String
  lower : String → String

/-- `verify_checksum`. A missing file is the `FileNotFoundError` of `open`. -/
def verifyChecksum (hashing : Hashing) (path : Path) (expected : String) (fs : FileSystem) :
    Except Exc Unit :=
  match fs path with
  | none => .error (.other s!"[Errno 2] No such file or directory: {path.text}")
  | some content =>
    let actual := hashing.sha256 content
    if actual ≠ hashing.lower expected then
      .error (.checksumMismatch
        s!"{path.name}: expected {hashing.lower expected}, got {actual}")
    else .ok ()

/-- `url.rsplit("/", 1)[-1]`. -/
def lastSegment (url : String) : String :=
  String.ofList (url.toList.reverse.takeWhile (· ≠ '/')).reverse

/-- `Path(dest) if dest is not None else cache_dir() / url.rsplit("/", 1)[-1]`. -/
def cachePath (cacheDir : Path) (dest : Option Path) (url : String) : Path :=
  dest.getD (cacheDir.join (lastSegment url))

/-- `cached_fetch` from the call of `fetch` on. -/
def fetchVerified (host : Host) (hashing : Hashing) (url : String) (path : Path)
    (expected : Option String) (retries : Nat) (fs : FileSystem) :
    Except Exc Path × FileSystem :=
  match fetch host url path retries fs with
  | (.error exc, fs) => (.error exc, fs)
  | (.ok _, fs) =>
    match expected with
    | none => (.ok path, fs)
    | some digest =>
      match verifyChecksum hashing path digest fs with
      | .ok () => (.ok path, fs)
      | .error (.checksumMismatch text) => (.error (.checksumMismatch text), fs.unlink path)
      | .error exc => (.error exc, fs)

/-- `cached_fetch`. -/
def cachedFetch (host : Host) (hashing : Hashing) (cacheDir : Path) (url : String)
    (dest : Option Path) (expected : Option String) (retries : Nat) (fs : FileSystem) :
    Except Exc Path × FileSystem :=
  let path := cachePath cacheDir dest url
  if (fs path).isSome then
    match expected with
    | none => (.ok path, fs)
    | some digest =>
      match verifyChecksum hashing path digest fs with
      | .ok () => (.ok path, fs)
      | .error (.checksumMismatch _) =>
        fetchVerified host hashing url path expected retries (fs.unlink path)
      | .error exc => (.error exc, fs)
  else fetchVerified host hashing url path expected retries fs

/-- The file's digest is the expected one. -/
def Verified (hashing : Hashing) (expected : String) (path : Path) (fs : FileSystem) : Prop :=
  ∃ content, fs path = some content ∧ hashing.sha256 content = hashing.lower expected

/-- What `cached_fetch` leaves at its path. -/
structure Cached (host : Host) (hashing : Hashing) (retries : Nat) (path : Path)
    (expected : Option String) (before after : FileSystem) (outcome : Except Exc Path) : Prop where
  /-- Either nothing was requested, or no `.part` file remains. -/
  part : after = before ∨ after path.part = none
  /-- The path holds what it held, nothing, or the whole body of one successful attempt. -/
  source : after path = before path ∨ after path = none ∨ ∃ attempt body,
    1 ≤ attempt ∧ attempt ≤ retries ∧ host.Delivered attempt body ∧ after path = some body
  present : ∀ p, outcome = .ok p → p = path ∧ (after path).isSome
  returned : ∀ p digest, outcome = .ok p → expected = some digest →
    Verified hashing digest path after
  raised : ∀ exc digest, outcome = .error exc → expected = some digest →
    after path = none ∨ Verified hashing digest path after

section CachedFetch

variable {host : Host} {hashing : Hashing} {url : String} {path : Path} {retries : Nat}
  {fs : FileSystem} {digest : String} {content : Bytes}

theorem verifyChecksum_ok (hcontent : fs path = some content)
    (h : hashing.sha256 content = hashing.lower digest) :
    verifyChecksum hashing path digest fs = .ok () := by
  simp [verifyChecksum, hcontent, h]

theorem verifyChecksum_mismatch (hcontent : fs path = some content)
    (h : hashing.sha256 content ≠ hashing.lower digest) :
    ∃ text, verifyChecksum hashing path digest fs = .error (.checksumMismatch text) := by
  simp [verifyChecksum, hcontent, h]

/-- Where nothing is in the way, whatever was there before. -/
theorem fetchVerified_cached (hretries : 1 ≤ retries) (habsent : fs path = none)
    (expected : Option String) (before : FileSystem) :
    Cached host hashing retries path expected before
      (fetchVerified host hashing url path expected retries fs).2
      (fetchVerified host hashing url path expected retries fs).1 := by
  cases hfetch : fetch host url path retries fs with
  | mk outcome after =>
    have hkept : AllOrNothing host retries path fs after outcome := by
      simpa only [hfetch] using fetch_kept host url path hretries fs
    have hpart : after path.part = none := hkept.part
    cases outcome with
    | error exc =>
      have hnone : after path = none := (hkept.raised exc rfl).trans habsent
      simp only [fetchVerified, hfetch]
      exact ⟨.inr hpart, .inr (.inl hnone), nofun, nofun, fun _ _ _ _ => .inl hnone⟩
    | ok p =>
      obtain ⟨rfl, attempt, body, hfirst, hlast, hdelivered, hbody⟩ := hkept.returned p rfl
      have hsource : ∃ attempt body, 1 ≤ attempt ∧ attempt ≤ retries ∧
          host.Delivered attempt body ∧ after p = some body :=
        ⟨attempt, body, hfirst, hlast, hdelivered, hbody⟩
      have hpresent : (after p).isSome := by simp [hbody]
      cases expected with
      | none =>
        simp only [fetchVerified, hfetch]
        refine ⟨.inr hpart, .inr (.inr hsource), ?_, nofun, nofun⟩
        rintro _ ⟨⟩
        exact ⟨rfl, hpresent⟩
      | some digest =>
        by_cases hdigest : hashing.sha256 body = hashing.lower digest
        · simp only [fetchVerified, hfetch, verifyChecksum_ok hbody hdigest]
          refine ⟨.inr hpart, .inr (.inr hsource), ?_, ?_, nofun⟩
          · rintro _ ⟨⟩
            exact ⟨rfl, hpresent⟩
          · rintro _ _ ⟨⟩ ⟨⟩
            exact ⟨body, hbody, hdigest⟩
        · obtain ⟨text, hmismatch⟩ := verifyChecksum_mismatch hbody hdigest
          have hnone : (after.unlink p) p = none := Files.unlink_self
          simp only [fetchVerified, hfetch, hmismatch]
          refine ⟨.inr ?_, .inr (.inl hnone), nofun, nofun, fun _ _ _ _ => .inl hnone⟩
          rw [Files.unlink_other p.part_ne]
          exact hpart

/-- The cases are whether a copy is there, and whether it is trusted. -/
theorem cachedFetch_cached (hretries : 1 ≤ retries) (cacheDir : Path) (dest : Option Path)
    (expected : Option String) (fs : FileSystem) :
    Cached host hashing retries (cachePath cacheDir dest url) expected fs
      (cachedFetch host hashing cacheDir url dest expected retries fs).2
      (cachedFetch host hashing cacheDir url dest expected retries fs).1 := by
  simp only [cachedFetch]
  generalize cachePath cacheDir dest url = path
  cases hcontent : fs path with
  | none => exact fetchVerified_cached hretries hcontent expected fs
  | some content =>
    have hpresent : (fs path).isSome := by simp [hcontent]
    cases expected with
    | none =>
      refine ⟨.inl rfl, .inl rfl, ?_, nofun, nofun⟩
      rintro _ ⟨⟩
      exact ⟨rfl, hpresent⟩
    | some digest =>
      by_cases hdigest : hashing.sha256 content = hashing.lower digest
      · simp only [Option.isSome_some, if_true, verifyChecksum_ok hcontent hdigest]
        refine ⟨.inl rfl, .inl rfl, ?_, ?_, nofun⟩
        · rintro _ ⟨⟩
          exact ⟨rfl, hpresent⟩
        · rintro _ _ ⟨⟩ ⟨⟩
          exact ⟨content, hcontent, hdigest⟩
      · obtain ⟨text, hmismatch⟩ := verifyChecksum_mismatch hcontent hdigest
        simp only [Option.isSome_some, if_true, hmismatch]
        exact fetchVerified_cached hretries Files.unlink_self (some digest) fs

end CachedFetch

/-- Whatever the files were, whatever each attempt meets. -/
theorem downloads_all_or_nothing {retries : Nat} (hretries : 1 ≤ retries) (host : Host)
    (url : String) (fs : FileSystem) :
    (∀ dest, AllOrNothing host retries dest fs (fetch host url dest retries fs).2
      (fetch host url dest retries fs).1) ∧
    ∀ hashing cacheDir dest expected,
      Cached host hashing retries (cachePath cacheDir dest url) expected fs
        (cachedFetch host hashing cacheDir url dest expected retries fs).2
        (cachedFetch host hashing cacheDir url dest expected retries fs).1 :=
  ⟨fun dest => fetch_kept host url dest hretries fs,
    fun _ cacheDir dest expected => cachedFetch_cached hretries cacheDir dest expected fs⟩

/-- The connection drops in the middle of the first body. -/
def dropsOnce : Host where
  response attempt :=
    if attempt = 1 then .answered 200 [[1, 2]] (some (.transport "connection dropped mid-stream"))
    else .answered 200 [[1, 2], [3]] none
  onChunk := none
  sleep _ := none

def archive : Path := ⟨["data", ".cache"], "archive.zip"⟩

/-- An older archive, and a `.part` file left by a run that was killed. -/
def stale : FileSystem := fun path =>
  if path = archive then some [9] else if path = archive.part then some [7, 7] else none

theorem downloads_all_or_nothing_drop :
    (fetch dropsOnce "https://host/archive.zip" archive 3 stale).2 archive = some [1, 2, 3] ∧
    AllOrNothing dropsOnce 3 archive stale
      (fetch dropsOnce "https://host/archive.zip" archive 3 stale).2
      (fetch dropsOnce "https://host/archive.zip" archive 3 stale).1 :=
  ⟨by decide, (downloads_all_or_nothing (by decide) dropsOnce _ stale).1 archive⟩

end Download
end Ingestion
end PerpCarry
