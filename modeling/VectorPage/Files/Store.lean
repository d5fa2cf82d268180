/-
What a conversion asks of a file system.

Conversions are written against the seven operations below, so that the same
text runs on the files of a computer and on a tree of files that is a plain
value.
-/
import VectorPage.Files.Tree

set_option autoImplicit false

namespace VectorPage

/-- A monad with files in it. -/
class MonadFiles (m : Type → Type) where
  pathExists : String → m Bool
  isDirectory : String → m Bool
  isFile : String → m Bool
  readOctets : String → m (Except Fault (List UInt8))
  writeText : String → String → m (Except Fault Unit)
  namesIn : String → m (Except Fault (List String))
  makeDirectories : String → m (Except Fault Unit)

/-- Files remain at hand in computations that can fail. -/
instance {ε : Type} {m : Type → Type} [Monad m] [MonadFiles m] : MonadFiles (ExceptT ε m) where
  pathExists path := ExceptT.lift (MonadFiles.pathExists path)
  isDirectory path := ExceptT.lift (MonadFiles.isDirectory path)
  isFile path := ExceptT.lift (MonadFiles.isFile path)
  readOctets path := ExceptT.lift (MonadFiles.readOctets path)
  writeText path text := ExceptT.lift (MonadFiles.writeText path text)
  namesIn path := ExceptT.lift (MonadFiles.namesIn path)
  makeDirectories path := ExceptT.lift (MonadFiles.makeDirectories path)

/-- The octets of a text. -/
def textOctets (s : String) : List UInt8 :=
  s.toByteArray.toList

/-- **A tree of files as the state of a computation.** -/
instance : MonadFiles (StateM FileTree) where
  pathExists path := fun tree => (tree.pathExists path, tree)
  isDirectory path := fun tree => (tree.isDirectory path, tree)
  isFile path := fun tree => (tree.isFile path, tree)
  readOctets path := fun tree => (tree.read path, tree)
  writeText path text := fun tree =>
    match tree.write path (textOctets text) with
    | .ok written => (.ok (), written)
    | .error fault => (.error fault, tree)
  namesIn path := fun tree => (tree.list path, tree)
  makeDirectories path := fun tree => tree.makeDirectories path

end VectorPage
