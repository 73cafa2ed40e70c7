import StackScript.Code.File

/-!
# Archives

An archive is a list of named members in the order in which they were added. A name may occur more
than once; then the last member of that name is the one that is found. A member whose name ends
with a slash is a folder.

As a file an archive is written without compression: for each member a record with its contents,
then a directory with one record for each member, then a record of the end.
-/

namespace StackScript

/-- A member of an archive. -/
structure Member where
  name : String
  bytes : List UInt8
  deriving DecidableEq, Repr

abbrev Archive := List Member

/-- Why bytes are no archive. -/
inductive ArchiveError where
  | notArchive
  | badDirectory
  | badMember (name : String)
  | badChecksum (name : String)
  | compressed
  | noMember (name : String)
  deriving DecidableEq, Repr

def ArchiveError.message : ArchiveError → String
  | notArchive => "File is not a zip file"
  | badDirectory => "Bad magic number for central directory"
  | badMember _ => "Bad magic number for file header"
  | badChecksum name => s!"Bad CRC-32 for file '{name}'"
  | compressed => "That compression method is not supported"
  | noMember name => s!"\"There is no item named '{name}' in the archive\""

namespace Archive

def find? (archive : Archive) (name : String) : Option Member :=
  archive.reverse.find? (·.name == name)

def read (archive : Archive) (name : String) : Except ArchiveError (List UInt8) :=
  match archive.find? name with
  | some m => .ok m.bytes
  | none => .error (.noMember name)

/-! ## The bytes of an archive -/

def checksumBit (state : UInt32) : UInt32 :=
  if state &&& 1 = 1 then (state >>> 1) ^^^ 0xEDB88320 else state >>> 1

def checksumByte (state : UInt32) (byte : UInt8) : UInt32 :=
  (List.range 8).foldl (fun s _ => checksumBit s) (state ^^^ byte.toUInt32)

def checksum (bytes : List UInt8) : UInt32 :=
  bytes.foldl checksumByte 0xFFFFFFFF ^^^ 0xFFFFFFFF

def memberMark : List UInt8 := [0x50, 0x4B, 0x03, 0x04]

def directoryMark : List UInt8 := [0x50, 0x4B, 0x01, 0x02]

def endMark : List UInt8 := [0x50, 0x4B, 0x05, 0x06]

/-- Fields that the records of a member share: version, flags, method, time, date, checksum, the
size twice, and the length of the name. -/
def sharedFields (m : Member) : List UInt8 :=
  let size := lowFirst 4 m.bytes.length
  lowFirst 2 20 ++ lowFirst 2 0x800 ++ lowFirst 2 0 ++ lowFirst 2 0 ++ lowFirst 2 33 ++
    lowFirst 4 (checksum m.bytes).toNat ++ size ++ size ++
    lowFirst 2 (Text.encodeUtf8 m.name).length

def memberRecord (m : Member) : List UInt8 :=
  memberMark ++ sharedFields m ++ lowFirst 2 0 ++ Text.encodeUtf8 m.name ++ m.bytes

/-- The record of a member in the directory; its contents start at the offset. -/
def directoryRecord (offset : Nat) (m : Member) : List UInt8 :=
  directoryMark ++ lowFirst 2 20 ++ sharedFields m ++ lowFirst 2 0 ++ lowFirst 2 0 ++
    lowFirst 2 0 ++ lowFirst 2 0 ++ lowFirst 4 0 ++ lowFirst 4 offset ++ Text.encodeUtf8 m.name

/-- The directory of members whose records start at the offset. -/
def directoryOf (offset : Nat) : Archive → List UInt8
  | [] => []
  | m :: rest => directoryRecord offset m ++ directoryOf (offset + (memberRecord m).length) rest

def encode (archive : Archive) : List UInt8 :=
  let members := archive.flatMap memberRecord
  let directory := directoryOf 0 archive
  let count := lowFirst 2 archive.length
  members ++ directory ++ endMark ++ lowFirst 2 0 ++ lowFirst 2 0 ++ count ++ count ++
    lowFirst 4 directory.length ++ lowFirst 4 members.length ++ lowFirst 2 0

def field (bytes : List UInt8) (offset count : Nat) : Nat :=
  ofLowFirst ((bytes.drop offset).take count)

def endOffset? (bytes : List UInt8) : Option Nat :=
  let rec search (offset : Nat) (found : Option Nat) : List UInt8 → Option Nat
    | [] => found
    | b :: rest =>
      let found :=
        if endMark.isPrefixOf (b :: rest) && 22 ≤ (b :: rest).length then some offset else found
      search (offset + 1) found rest
  search 0 none bytes

def nameIn (bytes : List UInt8) : Except ArchiveError String :=
  (Text.decodeUtf8 bytes).mapError fun _ => .badDirectory

def memberAt (bytes : List UInt8) (offset size sum : Nat) (name : String) :
    Except ArchiveError Member := do
  let record := bytes.drop offset
  if !memberMark.isPrefixOf record then throw (.badMember name)
  let start := 30 + field record 26 2 + field record 28 2
  let contents := (record.drop start).take size
  if (checksum contents).toNat ≠ sum then throw (.badChecksum name)
  return ⟨name, contents⟩

def readDirectory (bytes : List UInt8) : Nat → List UInt8 → Except ArchiveError Archive
  | 0, _ => return []
  | count + 1, directory => do
    if !directoryMark.isPrefixOf directory then throw .badDirectory
    if field directory 10 2 ≠ 0 then throw .compressed
    let nameLength := field directory 28 2
    let name ← nameIn ((directory.drop 46).take nameLength)
    let m ← memberAt bytes (field directory 42 4) (field directory 24 4) (field directory 16 4) name
    let length := 46 + nameLength + field directory 30 2 + field directory 32 2
    return m :: (← readDirectory bytes count (directory.drop length))

def decode (bytes : List UInt8) : Except ArchiveError Archive :=
  match endOffset? bytes with
  | none => .error .notArchive
  | some offset =>
    let record := bytes.drop offset
    readDirectory bytes (field record 10 2) (bytes.drop (field record 16 4))

end Archive

end StackScript
