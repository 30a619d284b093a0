import ClassCensus.Files.Tree

/-!
# Access to files

What a program may do with files: look what is at a path, read a file and write one.  A program
over any `FileAccess` runs with the files of the machine, and also with a tree at hand
(`FileTree.access`), where all that it does can be reasoned about.
-/

namespace ClassCensus

/-- Reads the file at a path, or finds why it cannot. -/
abbrev FileReader (m : Type → Type) := String → m (Except FileFault (List UInt8))

/-- What may be done with files: to look what is at a path, without reading files, to read the file
at a path, and to write a text to it, where it is made unless it is there. -/
structure FileAccess (m : Type → Type) where
  look : String → m (Except FileFault (FileTree Unit))
  read : FileReader m
  write : String → String → m (Except FileFault Unit)

namespace FileTree

def reader (tree : FileTree (List UInt8)) : FileReader Id := fun path => tree.read path

def access : FileAccess (StateM (FileTree (List UInt8))) where
  look path := fun tree => ((tree.find path).map shape, tree)
  read path := fun tree => (tree.read path, tree)
  write path text := fun tree =>
    match tree.write path text.toUTF8.toList with
    | .ok changed => (.ok (), changed)
    | .error fault => (.error fault, tree)

end FileTree

end ClassCensus
