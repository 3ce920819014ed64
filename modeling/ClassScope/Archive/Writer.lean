import ClassScope.Archive.Reader
import ClassScope.ClassFile

/-!
A plain archive with given entry names. Every entry holds the four bytes that a class file starts with.
-/
namespace ClassScope.Archive

/-- The part that the record before an entry and its directory record share. -/
def entryHeader (name : String) : Bytes :=
  let text := Utf8.encode name
  let flags := if name.toList.all fun c => c.toNat < 0x80 then 0 else 0x800
  Bytes.ofNat 2 20 ++ Bytes.ofNat 2 flags ++ Bytes.ofNat 2 0 ++ Bytes.ofNat 2 0 ++
    Bytes.ofNat 2 0x21 ++ Bytes.ofNat 4 0 ++ Bytes.ofNat 4 4 ++ Bytes.ofNat 4 4 ++
    Bytes.ofNat 2 text.length ++ Bytes.ofNat 2 0

def encodeLocal (name : String) : Bytes :=
  localSignature ++ entryHeader name ++ Utf8.encode name ++ ClassFile.magic

def encodeEntry (offset : Nat) (name : String) : Bytes :=
  entrySignature ++ [20, 3] ++ entryHeader name ++ List.replicate 10 0 ++
    Bytes.ofNat 4 offset ++ Utf8.encode name

def encodeDirectory (offset : Nat) : List String → Bytes
  | [] => []
  | name :: names =>
      encodeEntry offset name ++ encodeDirectory (offset + (encodeLocal name).length) names

def encode (names : List String) : Bytes :=
  let content := names.flatMap encodeLocal
  let directory := encodeDirectory 0 names
  content ++ directory ++ endSignature ++ List.replicate 4 0 ++ Bytes.ofNat 2 names.length ++
    Bytes.ofNat 2 names.length ++ Bytes.ofNat 4 directory.length ++ Bytes.ofNat 4 content.length ++
    [0, 0]

end ClassScope.Archive
