import SealedCustody.Config
import SealedCustody.Disk
import SealedCustody.Error
import SealedCustody.Identity

/-!
# Key files

A node's identity is kept in a file. Where something stands at the path, it is read and never written
over, even if it holds no identity; where nothing does, a fresh identity is kept there.
-/

namespace SealedCustody.KeyFile

/-- Octets that hold no identity. -/
def undecodable : Error := .identity "decoding node key: not an encoded Ed25519 key"

/-- The identity that octets hold. -/
def decode (bs : List UInt8) : Except Error Identity :=
  match Identity.decode? bs with
  | some i => .ok i
  | none => .error undecodable

/-- Keeps an identity at a path, making the directories above it. -/
def save (d : Disk) (cwd : Location) (path : String) (i : Identity) : Except Error Unit × Disk :=
  match Path.ofText? path with
  | none => (.error (.io "no such file"), d)
  | some p =>
    match d.save cwd p i.encode with
    | (true, d) => (.ok (), d)
    | (false, d) => (.error (.io "cannot be written"), d)

/-- What stands at a path. -/
def find? (d : Disk) (cwd : Location) (path : String) : Option DiskEntry :=
  (Path.ofText? path).bind (d.find? cwd)

/-- The identity kept at a path, or the fresh one, which is then kept there. -/
def loadOrKeep (d : Disk) (cwd : Location) (path : String) (fresh : Identity) :
    Except Error Identity × Disk :=
  match find? d cwd path with
  | some (.file bs) => (decode bs, d)
  | some .directory => (.error (.io "is a directory"), d)
  | none =>
    match save d cwd path fresh with
    | (.ok (), d) => (.ok fresh, d)
    | (.error e, d) => (.error e, d)

/-- Why no key was generated. -/
inductive Refusal where
  /-- Something stands at the path. -/
  | taken
  | failed (e : Error)
deriving DecidableEq, Repr

/-- Keeps a fresh identity in a directory's key file, unless something stands there. The path is
answered. -/
def generate (d : Disk) (cwd : Location) (dir : String) (fresh : Identity) :
    Except Refusal String × Disk :=
  let path := joinPath dir keyFileName
  match find? d cwd path with
  | some _ => (.error .taken, d)
  | none =>
    match save d cwd path fresh with
    | (.ok (), d) => (.ok path, d)
    | (.error e, d) => (.error (.failed e), d)

/-- What is said of a fresh identity that was kept at a path. -/
def announcement (path : String) (fresh : Identity) : List String :=
  ["Node key saved to: " ++ path, "Peer id: " ++ fresh.peerId.text]

end SealedCustody.KeyFile
