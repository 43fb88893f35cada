import Mathlib.Logic.Function.Basic

/-!
# Lib.Files

A file system as a map from paths to contents.

The four operations change one path each, `replace` two. A write is one over any content with an
append; what the contents are is left open.
-/

namespace PerpCarry
namespace Lib

/-- What is stored at each path, `none` where there is no file. -/
abbrev Files (Path Content : Type) := Path → Option Content

namespace Files

variable {Path Content : Type} [DecidableEq Path]

def write (fs : Files Path Content) (path : Path) (content : Content) : Files Path Content :=
  Function.update fs path (some content)

/-- More content at the end of an open file. -/
def append [Append Content] (fs : Files Path Content) (path : Path) (more : Content) :
    Files Path Content :=
  Function.update fs path ((fs path).map (· ++ more))

/-- Removes the file, if there is one. -/
def unlink (fs : Files Path Content) (path : Path) : Files Path Content :=
  Function.update fs path none

/-- Moves a file over another. -/
def replace (fs : Files Path Content) (source target : Path) : Files Path Content :=
  unlink (Function.update fs target (fs source)) source

variable {fs : Files Path Content} {path other source target : Path} {content : Content}

@[simp] theorem write_self : fs.write path content path = some content :=
  Function.update_self ..

theorem write_other (h : other ≠ path) : fs.write path content other = fs other :=
  Function.update_of_ne h ..

@[simp] theorem unlink_self : fs.unlink path path = none := Function.update_self ..

theorem unlink_other (h : other ≠ path) : fs.unlink path other = fs other :=
  Function.update_of_ne h ..

@[simp] theorem replace_source : fs.replace source target source = none := unlink_self

theorem replace_target (h : target ≠ source) : fs.replace source target target = fs source := by
  unfold replace
  rw [unlink_other h, Function.update_self]

theorem replace_other (hs : other ≠ source) (ht : other ≠ target) :
    fs.replace source target other = fs other := by
  unfold replace
  rw [unlink_other hs, Function.update_of_ne ht]

section Append

variable [Append Content] {more : Content}

theorem append_self (h : fs path = some content) :
    fs.append path more path = some (content ++ more) := by
  simp [append, h]

theorem append_other (h : other ≠ path) : fs.append path more other = fs other :=
  Function.update_of_ne h ..

end Append

end Files
end Lib
end PerpCarry
