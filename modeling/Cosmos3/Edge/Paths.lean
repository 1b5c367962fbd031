import Cosmos3.Basis.Checks
import Cosmos3.Basis.Python

namespace Cosmos3.Edge

open Basis Basis.Python

-- A surrogate stands for no byte, except those that stand for the bytes that are not
-- UTF-8.
def encodable (path : Text) : Bool :=
  (codePoints path).all fun c => !(0xD800 ≤ c && c ≤ 0xDFFF) || (0xDC80 ≤ c && c ≤ 0xDCFF)

-- A text that came from the operating system.
structure OsText where
  text : Text
  encodable : encodable text = true

-- What a path resolves to: the `..` collapsed, the symbolic links followed.
structure FileSystem where
  resolve : Text → Text

-- `os.path.realpath`
def FileSystem.realpath (files : FileSystem) (path : Text) : Except Exn Text :=
  if encodable path then .ok (files.resolve path) else .error .unicodeEncodeError

theorem realpath_eq_ok {files : FileSystem} {path : Text} (h : encodable path = true) :
    files.realpath path = .ok (files.resolve path) := if_pos h

inductive PathError where
  | untrusted (path : Text) (allowlist : List OsText)
  | python (exn : Exn)

def isAsciiLetter (u : UInt16) : Bool := (65 ≤ u && u ≤ 90) || (97 ≤ u && u ≤ 122)

def isSchemeUnit (u : UInt16) : Bool :=
  isAsciiLetter u || isDecimalDigit u || u = 43 || u = 46 || u = 45

-- `^[a-zA-Z][a-zA-Z0-9+.\-]*://`
def hasScheme : Text → Bool
  | [] => false
  | u :: rest => isAsciiLetter u && (ascii "://").isPrefixOf (rest.dropWhile isSchemeUnit)

def isWithin (candidate root : Text) : Bool :=
  candidate = root || (root ++ ascii "/").isPrefixOf candidate

-- What `resolve_within` refuses before it asks the file system.
def isRemote (path : Text) : Bool := path.contains 0 || hasScheme path

section Resolve

variable (files : FileSystem) (path : Text) (allowlist : List OsText)

def containedIn (candidate : Text) : List OsText → Except PathError Text
  | [] => .error (.untrusted path allowlist)
  | root :: roots =>
    match files.realpath root.text with
    | .error exn => .error (.python exn)
    | .ok resolved => if isWithin candidate resolved then .ok candidate else containedIn candidate roots

def resolveWithin : Except PathError Text :=
  if isRemote path then .error (.untrusted path allowlist)
  else
    match files.realpath path with
    | .error exn => .error (.python exn)
    | .ok candidate => containedIn files path allowlist candidate allowlist

-- Some root of the allowlist has the path in it.
def isTrusted : Bool :=
  allowlist.any fun root => isWithin (files.resolve path) (files.resolve root.text)

theorem containedIn_eq (candidate : Text) (roots : List OsText) :
    containedIn files path allowlist candidate roots =
      if roots.any fun root => isWithin candidate (files.resolve root.text) then .ok candidate
      else .error (.untrusted path allowlist) := by
  induction roots with
  | nil => rfl
  | cons root roots ih =>
      rw [containedIn, realpath_eq_ok root.encodable, List.any_cons]
      dsimp only
      by_cases hroot : isWithin candidate (files.resolve root.text) = true
      · rw [if_pos hroot, if_pos (by rw [hroot, Bool.true_or])]
      · rw [if_neg hroot, ih]
        simp only [Bool.not_eq_true] at hroot
        rw [hroot, Bool.false_or]

-- A path is refused, or it cannot be resolved at all, or it is contained.
theorem resolveWithin_eq :
    resolveWithin files path allowlist =
      if isRemote path then .error (.untrusted path allowlist)
      else if encodable path = false then .error (.python .unicodeEncodeError)
      else if isTrusted files path allowlist then .ok (files.resolve path)
      else .error (.untrusted path allowlist) := by
  unfold resolveWithin
  by_cases hremote : isRemote path = true
  · rw [if_pos hremote, if_pos hremote]
  · rw [if_neg hremote, if_neg hremote]
    by_cases hencodable : encodable path = true
    · rw [realpath_eq_ok hencodable, if_neg (by simp [hencodable])]
      exact containedIn_eq files path allowlist (files.resolve path) allowlist
    · rw [FileSystem.realpath, if_neg hencodable, if_pos (by simpa using hencodable)]

end Resolve

end Cosmos3.Edge
