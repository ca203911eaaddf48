/-
File URIs as the permission policies read them: the path convention they
follow, their lexical components, containment and joining.  Nothing here looks
at a file system.
-/
import Hexa.Lib.PercentEncoding

namespace Hexa.Permissions

def utf8 (text : Text) : Bytes := text.flatMap String.utf8EncodeChar

/-- A letter, a digit, or one of `-`, `.`, `_` and `~`. -/
def isUnreserved (byte : UInt8) : Bool :=
  isAsciiAlphabetic byte || (48 ≤ byte.toNat && byte.toNat ≤ 57) || (ascii "-._~").contains byte

/-- What paths rest on of the crates `url` and `urlencoding`: the parser of
hosts, the editing of the segments of a path, the percent-encoding of a
segment, and its decoding. -/
class UrlCrates where
  setHost : Text → Option Bytes
  popIfEmpty : List Bytes → List Bytes
  pop : List Bytes → List Bytes
  push : List Bytes → Text → List Bytes
  encodeSegment : Bytes → Bytes
  decodeBinary : Bytes → Bytes
  popIfEmpty_eq : ∀ segments, popIfEmpty segments =
    if 1 < segments.length ∧ segments.getLast? = some [] then segments.dropLast else segments
  pop_eq : ∀ segments, pop segments =
    if segments.length ≤ 1 then [[]] else segments.dropLast
  push_eq : ∀ segments component, push segments component =
    (if segments = [[]] then [] else segments) ++ [encodeSegment (utf8 component)]
  encodeSegment_unreserved : ∀ bytes, bytes.all isUnreserved = true →
    encodeSegment bytes = bytes
  decodeBinary_encodeSegment : ∀ bytes, decodeBinary (encodeSegment bytes) = bytes
  decodeBinary_plain : ∀ bytes, percent ∉ bytes → decodeBinary bytes = bytes
  decodeBinary_eq_nil : ∀ {bytes}, decodeBinary bytes = [] ↔ bytes = []
  map_asciiLower_decodeBinary : ∀ bytes, (decodeBinary bytes).map asciiLower =
    (decodeBinary (bytes.map asciiLower)).map asciiLower

/-- The bytes that stand in a segment as they are. -/
def keptInSegment (byte : UInt8) : Bool :=
  0x21 ≤ byte.toNat && byte.toNat ≤ 0x7e && !(ascii "\"#%/<>?\\^`\x7b\x7d").contains byte

theorem keptInSegment_of_isUnreserved {byte : UInt8} (hbyte : isUnreserved byte = true) :
    keptInSegment byte = true := by
  revert byte
  decide +kernel

/-- The crates as they are documented, with a parser of hosts. -/
abbrev documentedCrates (setHost : Text → Option Bytes) : UrlCrates where
  setHost
  popIfEmpty segments :=
    if 1 < segments.length ∧ segments.getLast? = some [] then segments.dropLast else segments
  pop segments := if segments.length ≤ 1 then [[]] else segments.dropLast
  push segments component :=
    (if segments = [[]] then [] else segments) ++ [percentEncode keptInSegment (utf8 component)]
  encodeSegment := percentEncode keptInSegment
  decodeBinary := percentDecode
  popIfEmpty_eq _ := rfl
  pop_eq _ := rfl
  push_eq _ _ := rfl
  encodeSegment_unreserved _ hbytes :=
    percentEncode_of_kept fun byte hbyte =>
      keptInSegment_of_isUnreserved (List.all_eq_true.mp hbytes byte hbyte)
  decodeBinary_encodeSegment := percentDecode_percentEncode (by decide)
  decodeBinary_plain _ := percentDecode_of_notMem
  decodeBinary_eq_nil := percentDecode_eq_nil
  map_asciiLower_decodeBinary := map_asciiLower_percentDecode

open UrlCrates

variable [UrlCrates]

inductive PathConvention where
  | posix
  | windows
  deriving Repr, DecidableEq

/-- The bytes `/`, `\\` and `:`. -/
def slash : UInt8 := 0x2f

@[inherit_doc slash]
def backslash : UInt8 := 0x5c

@[inherit_doc slash]
def colon : UInt8 := 0x3a

/-- A validated `file:` URL: its authority, and its path cut at the slashes
behind the first one.  The path `/` has one empty segment. -/
structure FileUrl where
  host : Option Bytes
  segments : List Bytes
  noNul : ∀ segment ∈ segments, 0 ∉ decodeBinary segment
  deriving DecidableEq

/-- A URI made for a native path that has none keeps the bytes of the path. -/
inductive PathUri where
  | fallback (bytes : Bytes)
  | file (url : FileUrl)
  deriving DecidableEq

def isWindowsDriveUriSegment : Bytes → Bool
  | [drive, byte] => isAsciiAlphabetic drive && byte == colon
  | [drive, first, second, third] =>
    isAsciiAlphabetic drive && first == percent && second == 0x33 &&
      (third == 0x41 || third == 0x61)
  | _ => false

/-- The first two code units of the UTF-16 text tell a drive or a share. -/
def inferOpaquePathConvention (bytes : Bytes) : Option PathConvention :=
  if bytes.head? = some slash then some .posix
  else if bytes.length % 2 ≠ 0 then none
  else
    match bytes with
    | first :: firstHigh :: second :: secondHigh :: _ =>
      if firstHigh = 0 ∧ secondHigh = 0 ∧
          (isAsciiAlphabetic first ∧ second = colon ∨ first = backslash ∧ second = backslash) then
        some .windows
      else none
    | _ => none

/-- A segment as text, or as it is written when it is not one. -/
def decodeUriPath (segment : Bytes) : Bytes :=
  if isUtf8 (decodeBinary segment) then decodeBinary segment else segment

namespace FileUrl

variable (url : FileUrl)

/-- The segments that name something. -/
def names : List Bytes := url.segments.filter (fun segment => segment ≠ [])

def convention : PathConvention :=
  if url.host.isSome then .windows
  else
    match url.names.head? with
    | some segment => if isWindowsDriveUriSegment segment then .windows else .posix
    | none => .posix

/-- A separator of the native path. -/
def isSeparator (convention : PathConvention) (byte : UInt8) : Bool :=
  byte == slash || (convention == .windows && byte == backslash)

/-- `containment_path_segments`: none if a segment hides a separator. -/
def containmentPathSegments : Option (List Bytes) :=
  if url.names.any (fun segment =>
      (decodeBinary segment).any (isSeparator url.convention)) then none
  else some url.names

/-- The decoded segments, if none of them hides a separator. -/
def windowsIdentity : Option (List Bytes) :=
  if url.convention ≠ .windows ∨ url.segments.any (fun segment =>
      (decodeBinary segment).any (isSeparator .windows)) then none
  else some (url.segments.map (fun segment => (decodeBinary segment).map asciiLower))

end FileUrl

def segmentsEqual (convention : PathConvention) (path base : Bytes) : Bool :=
  match convention with
  | .posix => decodeBinary path == decodeBinary base
  | .windows =>
    eqIgnoreAsciiCase path base || eqIgnoreAsciiCase (decodeUriPath path) (decodeUriPath base)

def nativePathSegmentsStartWith (convention : PathConvention) (path base : List Bytes) : Bool :=
  base.length ≤ path.length &&
    (path.zip base).all (fun pair => segmentsEqual convention pair.1 pair.2)

namespace PathUri

def inferPathConvention : PathUri → Option PathConvention
  | fallback bytes => inferOpaquePathConvention bytes
  | file url => some url.convention

def isOpaque : PathUri → Bool
  | fallback _ => true
  | file _ => false

/-- The number of components, if the URI shows them without ambiguity. -/
def lexicalDepth : PathUri → Option Nat
  | fallback _ => none
  | file url => url.containmentPathSegments.map List.length

/-- Equality of URIs: the case of Windows paths is ignored. -/
def same (left right : PathUri) : Bool :=
  left = right ||
    match left, right with
    | file left, file right =>
      left.windowsIdentity.isSome && left.host == right.host &&
        left.windowsIdentity == right.windowsIdentity
    | _, _ => false

instance : BEq PathUri := ⟨same⟩

/-- The URI is `base` or lies below it. -/
def startsWith (path base : PathUri) : Bool :=
  path.same base ||
    match path, base with
    | file path, file base =>
      path.host == base.host && path.convention == base.convention &&
        match path.containmentPathSegments, base.containmentPathSegments with
        | some segments, some baseSegments =>
          nativePathSegmentsStartWith path.convention segments baseSegments
        | _, _ => false
    | _, _ => false

/-- The last segment that names something. -/
def basename : PathUri → Option Bytes
  | fallback _ => none
  | file url => url.names.getLast?.map decodeUriPath

end PathUri

/-- The root of a Windows path keeps one segment: its drive or its share. -/
def anchorDepth : PathConvention → Nat
  | .posix => 0
  | .windows => 1

theorem mem_of_mem_pop {segments : List Bytes} {segment : Bytes} (hmem : segment ∈ pop segments) :
    segment ∈ segments ∨ segment = [] := by
  rw [pop_eq] at hmem
  split_ifs at hmem
  · exact .inr (by simpa using hmem)
  · exact .inl (List.dropLast_subset _ hmem)

theorem mem_of_mem_popIfEmpty {segments : List Bytes} {segment : Bytes}
    (hmem : segment ∈ popIfEmpty segments) : segment ∈ segments := by
  rw [popIfEmpty_eq] at hmem
  split_ifs at hmem
  · exact List.dropLast_subset _ hmem
  · exact hmem

namespace FileUrl

/-- The URL with its last segment taken away. -/
def popped (url : FileUrl) : FileUrl where
  host := url.host
  segments := pop (popIfEmpty url.segments)
  noNul segment hsegment := by
    rcases mem_of_mem_pop hsegment with hmem | rfl
    · exact url.noNul segment (mem_of_mem_popIfEmpty hmem)
    · rw [decodeBinary_eq_nil.mpr rfl]
      exact List.not_mem_nil

/-- The lexical parent, without crossing the root. -/
def parent (url : FileUrl) : Option FileUrl :=
  if url.names.length ≤ anchorDepth url.convention then none
  else some url.popped

/-- The last of the ancestors. -/
def lastAncestor (url : FileUrl) : Nat → FileUrl
  | 0 => url
  | steps + 1 =>
    match url.parent with
    | some parent => parent.lastAncestor steps
    | none => url

end FileUrl

namespace PathUri

def parent : PathUri → Option PathUri
  | fallback _ => none
  | file url => url.parent.map file

/-- `ancestors().last()`; every parent takes a segment away. -/
def lastAncestor : PathUri → PathUri
  | fallback bytes => fallback bytes
  | file url => file (url.lastAncestor url.segments.length)

end PathUri

/-! Reading native paths. -/

/-- The code units of a text, low byte first. -/
def utf16 (text : Text) : Bytes :=
  text.flatMap (fun char =>
    let code := char.toNat
    let units :=
      if code < 0x10000 then [code]
      else [0xd800 + (code - 0x10000) / 0x400, 0xdc00 + (code - 0x10000) % 0x400]
    units.flatMap (fun unit => [UInt8.ofNat (unit % 0x100), UInt8.ofNat (unit / 0x100)]))

def isWindowsSeparatorChar (char : Char) : Bool := char == '\\' || char == '/'

def upperDrive (segment : Bytes) : Bytes :=
  match segment with
  | drive :: rest => (if 97 ≤ drive.toNat ∧ drive.toNat ≤ 122 then drive - 32 else drive) :: rest
  | [] => []

/-- `with_normalized_windows_drive_letter`. -/
def normalizedDrive : List Bytes → List Bytes
  | [] => []
  | segment :: segments =>
    if segment = [] then segment :: normalizedDrive segments
    else if isWindowsDriveUriSegment segment then upperDrive segment :: segments
    else segment :: segments

/-- `PathUri::try_from`: a zero byte is refused, the local host dropped. -/
def PathUri.tryFrom (host : Option Bytes) (segments : List Bytes) : Option PathUri :=
  let host := if host = some (ascii "localhost") then none else host
  let segments := if host.isSome then segments else normalizedDrive segments
  if hvalid : ∀ segment ∈ segments, 0 ∉ decodeBinary segment then
    some (.file ⟨host, segments, hvalid⟩)
  else none

/-- One segment of an absolute native path: what is kept so far, and whether
the path ends with a separator. -/
def absoluteSegment (anchor : Nat) (state : List Text × Bool) (segment : Text) :
    List Text × Bool :=
  if segment = [] then (state.1, true)
  else if segment = ['.'] then (state.1, false)
  else if segment = ['.', '.'] then
    (if anchor < state.1.length then state.1.dropLast else state.1, false)
  else (state.1 ++ [segment], false)

section Native

def pathUriFromSegments (convention : PathConvention) (host : Option Text)
    (segments : List Text) : Option PathUri := do
  let url ←
    match host with
    | some host => (setHost host).map some
    | none => some none
  let anchor := anchorDepth convention
  let (normalized, trailing) := segments.foldl (absoluteSegment anchor) ([], false)
  let normalized :=
    if trailing ∨ convention = .windows ∧ host.isNone ∧ normalized.length = anchor then
      normalized ++ [[]]
    else normalized
  PathUri.tryFrom url (normalized.foldl push [[]])

variable (path : Text)

def parsePosixPath : Option PathUri :=
  match path with
  | '/' :: rest =>
    if '\x00' ∈ rest then some (.fallback (utf8 path))
    else pathUriFromSegments .posix none (rest.splitOn '/')
  | _ => none

def isWindowsDriveAbsolutePath : Text → Bool
  | drive :: second :: third :: _ =>
    drive.isAlpha && second == ':' && isWindowsSeparatorChar third
  | _ => false

def normalizeWindowsDevicePath : Option Text :=
  match stripPrefix "\\\\?\\UNC\\".toList path,
    stripPrefix "\\\\.\\UNC\\".toList path,
    stripPrefix "\\\\?\\".toList path,
    stripPrefix "\\\\.\\".toList path with
  | some unc, _, _, _ => some ("\\\\".toList ++ unc)
  | none, some unc, _, _ => some ("\\\\".toList ++ unc)
  | none, none, some rest, device =>
    if isWindowsDriveAbsolutePath rest then some rest
    else device.filter isWindowsDriveAbsolutePath
  | none, none, none, device => device.filter isWindowsDriveAbsolutePath

def windowsOpaquePathUri : PathUri := .fallback (utf16 path)

/-- The path begins like a device name: `\\.\` or `\\?\`. -/
def usesNamespace : Text → Bool
  | first :: second :: marker :: separator :: _ =>
    isWindowsSeparatorChar first && isWindowsSeparatorChar second &&
      isWindowsSeparatorChar separator &&
      (marker == '.' || marker == '?')
  | _ => false

def parseUnnormalizedWindowsPath : Option PathUri :=
  if usesNamespace path ∨ '\x00' ∈ path then some (windowsOpaquePathUri path)
  else if isWindowsDriveAbsolutePath path then
    pathUriFromSegments .windows none
      (path.take 2 :: (path.drop 3).splitOnP isWindowsSeparatorChar)
  else if 2 ≤ path.length ∧ (path.take 2).all isWindowsSeparatorChar then
    match (path.drop 2).splitOnP isWindowsSeparatorChar with
    | host :: share :: components =>
      if host = [] ∨ share = [] then none
      else
        (pathUriFromSegments .windows (some host) (share :: components)).or
          (some (windowsOpaquePathUri path))
    | _ => none
  else none

/-- The URI names a share or a drive of a device path. -/
def fitsDevicePath (normalized : Text) : PathUri → Bool
  | .fallback _ => false
  | .file url =>
    url.convention == .windows &&
      (!("\\\\".toList.isPrefixOf normalized) || url.host.any (fun host => host ≠ []))

def parseWindowsPath : Option PathUri :=
  match normalizeWindowsDevicePath path with
  | some normalized =>
    let badShare :=
      match stripPrefix "\\\\".toList normalized with
      | some unc =>
        let components := unc.splitOnP isWindowsSeparatorChar
        let bad := fun (component : Option Text) =>
          component = none ∨ component = some [] ∨
            component = some ['.'] ∨ component = some ['.', '.']
        decide (bad components[0]? ∨ bad components[1]?)
      | none => false
    if badShare then some (windowsOpaquePathUri path)
    else
      some (((parseUnnormalizedWindowsPath normalized).filter
        (fitsDevicePath normalized)).getD (windowsOpaquePathUri path))
  | none => parseUnnormalizedWindowsPath path

def PathUri.hostIsEmpty : PathUri → Bool
  | fallback _ => false
  | file url => url.host == some []

def fromAbsoluteNativePath (convention : PathConvention) : Option PathUri :=
  let parsed :=
    match convention with
    | .posix => parsePosixPath path
    | .windows => parseWindowsPath path
  parsed.map (fun uri =>
    if !uri.hostIsEmpty ∧ uri.inferPathConvention = some convention then uri
    else
      match convention with
      | .posix => .fallback (utf8 path)
      | .windows => windowsOpaquePathUri path)

/-- One component of a relative path; the depth does not go below the root. -/
def relativeComponent (anchor : Nat) (state : List Bytes × Nat) (component : Text) :
    List Bytes × Nat :=
  if component = [] ∨ component = ['.'] then state
  else if component = ['.', '.'] then
    if anchor < state.2 then (pop state.1, state.2 - 1) else state
  else (push state.1 component, state.2 + 1)

/-- `C:` before a path that is relative to the directory of that drive. -/
def driveOf : Text → Option Char
  | drive :: ':' :: _ => if drive.isAlpha then some drive else none
  | _ => none

namespace FileUrl

variable (url : FileUrl)

def isOnDrive (drive : Char) : Bool :=
  match url.names.head? with
  | some segment =>
    isWindowsDriveUriSegment segment && eqIgnoreAsciiCase (segment.take 1) (utf8 [drive])
  | none => false

/-- The path behind a drive, which must be that of the URL. -/
def withoutDrive (path : Text) : Option Text :=
  match url.convention, driveOf path with
  | .windows, some drive => if url.isOnDrive drive then some (path.drop 2) else none
  | _, _ => some path

def isWindowsRootRelative (path : Text) : Bool :=
  url.convention == .windows &&
    match path with
    | first :: rest => isWindowsSeparatorChar first && !rest.head?.any isWindowsSeparatorChar
    | [] => false

/-- The relative path appended to the URL. -/
def joinRelative (path : Text) : Option PathUri :=
  let anchor := anchorDepth url.convention
  let segments := popIfEmpty url.segments
  let depth := url.names.length
  let start :=
    if url.isWindowsRootRelative path then
      (Nat.iterate pop (depth - anchor) segments, min depth anchor)
    else (segments, depth)
  let components :=
    match url.convention with
    | .posix => path.splitOn '/'
    | .windows => path.splitOnP isWindowsSeparatorChar
  PathUri.tryFrom url.host (components.foldl (relativeComponent anchor) start).1

end FileUrl

namespace PathUri

def join (uri : PathUri) (path : Text) : Option PathUri :=
  if '\x00' ∈ path then none
  else if path = [] then some uri
  else
    match uri.inferPathConvention with
    | none => none
    | some convention =>
      match fromAbsoluteNativePath path convention, uri with
      | some absolute, _ => some absolute
      | none, fallback _ => none
      | none, file url => (url.withoutDrive path).bind url.joinRelative

/-- A relative path that stays at or below the URI. -/
def joinDescendant (uri : PathUri) (path : Text) : Option PathUri :=
  (uri.join path).filter (fun descendant =>
    !(path.head? == some '/' || uri.inferPathConvention == some .windows &&
        (path.head? == some '\\' ||
          (path.splitOnP isWindowsSeparatorChar).any (·.contains ':')) ||
      !descendant.startsWith uri))

end PathUri

end Native

end Hexa.Permissions
