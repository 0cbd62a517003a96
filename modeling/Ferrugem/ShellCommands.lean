import Ferrugem.Library.WordSplitting
import Ferrugem.DirectoryEnumeration
import Ferrugem.DirectoryNames
import Ferrugem.LineHistory
import Ferrugem.ShellAppend
import Ferrugem.SyscallStores

/-!
# The commands of the shell

`execute` of `kernel/src/shell/mod.rs` and the commands that work on files and
users, with the user table of `shell/users.rs`. A line is what `read_line`
returns, so its bytes are ASCII and the blanks are the ASCII ones. The commands
that report on other parts of the kernel or start tasks change neither the
session nor the filesystem; what they print is a parameter.
-/

namespace Ferrugem.ShellCommands

open Ferrugem.RamFsModel Ferrugem.LineHistory Ferrugem.ShellAppend Ferrugem.SyscallStores
open WordSplitting

set_option autoImplicit false

def message (line : String) : Bytes := ascii line.toList

def space : UInt8 := 0x20

/-- `is_ascii_whitespace`. -/
def isBlank (byte : UInt8) : Bool :=
  byte == space || byte == 0x09 || byte == 0x0A || byte == 0x0C || byte == 0x0D

/-- The white space that `str::trim` removes, as far as it is ASCII. -/
def isWhite (byte : UInt8) : Bool := isBlank byte || byte == 0x0B

def trim (bytes : Bytes) : Bytes := (bytes.dropWhile isWhite).rdropWhile isWhite

/-- `core::str::from_utf8(bytes).unwrap_or(fallback)`. -/
def utf8Or (bytes fallback : Bytes) : Bytes :=
  if (ByteArray.mk bytes.toArray).validateUTF8 then bytes else fallback

structure User where
  uid : BitVec 16
  gid : BitVec 16
  name : Bytes
  deriving DecidableEq

def maxUsers : Nat := 8

def addUser (table : List User) (uid gid : BitVec 16) (name : Bytes) : List User :=
  if maxUsers ≤ table.length then table
  else table ++ [{ uid := uid, gid := gid, name := name.take 32 }]

/-- The table after `users::init`. -/
def users : List User :=
  addUser (addUser [] 0 0 (ascii ['r', 'o', 'o', 't'])) 1000 1000
    (ascii ['f', 'e', 'r', 'r', 'u', 'g', 'e', 'm'])

def User.nameStr (user : User) : Bytes := utf8Or user.name [0x3F]

def lookupByName (name : Bytes) : Option User := users.find? fun user => user.nameStr == name

def lookupByUid (uid : BitVec 16) : Option User := users.find? fun user => user.uid == uid

def userName (uid : BitVec 16) : Bytes := ((lookupByUid uid).map User.nameStr).getD [0x3F]

/-- The digits that `print_u64` puts in front of those it has. -/
def decimalLoop (v : Nat) (printed : Bytes) : Bytes :=
  if v = 0 then printed else decimalLoop (v / 10) (UInt8.ofNat (0x30 + v % 10) :: printed)
decreasing_by exact Nat.div_lt_self (Nat.pos_of_ne_zero (by assumption)) (by decide)

def printU64 (n : Nat) : Bytes := if n = 0 then [0x30] else decimalLoop n []

/-- The loop of `print_u64_padded` from the right end of its field. -/
def paddedLoop : Nat → Nat → Bytes → Bytes
  | 0, _, printed => printed
  | room + 1, v, printed =>
      if v = 0 then List.replicate (room + 1) space ++ printed
      else paddedLoop room (v / 10) (UInt8.ofNat (0x30 + v % 10) :: printed)

/-- The buffer behind it has 20 bytes, and `width` is a constant below that. -/
def printU64Padded (n width : Nat) : Bytes :=
  if n = 0 then List.replicate (width - 1) space ++ [0x30] else paddedLoop width n []

/-- The value of a digit below `base`, which is at most ten. -/
def digitOf (base : Nat) (byte : UInt8) : Option Nat :=
  if 0x30 ≤ byte.toNat ∧ byte.toNat < 0x30 + base then some (byte.toNat - 0x30) else none

/-- The saturating loop of `parse_octal` and `parse_decimal`. -/
def parseLoop (base limit : Nat) : Nat → Bytes → Option Nat
  | val, [] => some val
  | val, byte :: rest =>
      (digitOf base byte).bind fun digit =>
        parseLoop base limit (min (min (val * base) limit + digit) limit) rest

def parseOctal (digits : Bytes) : Option (BitVec 16) :=
  (parseLoop 8 0xFFFF 0 digits).map (BitVec.ofNat 16)

def parseDecimal (digits : Bytes) : Option Nat :=
  if digits = [] then none else parseLoop 10 (2 ^ 64 - 1) 0 digits

def formatMode (isDir : Bool) (mode : BitVec 16) : Bytes :=
  let flag (bit : Nat) (letter : UInt8) : UInt8 := if mode.getLsbD bit then letter else 0x2D
  [if isDir then 0x64 else 0x2D, flag 8 0x72, flag 7 0x77, flag 6 0x78, flag 5 0x72, flag 4 0x77,
    flag 3 0x78, flag 2 0x72, flag 1 0x77, flag 0 0x78]

/-- `State` of the source, the filesystem, and whether `halt` has run. -/
structure Session where
  fs : RamFs
  cwd : InodeIndex
  uid : BitVec 16
  gid : BitVec 16
  halted : Bool

/-- `State::new`. -/
def Session.new (fs : RamFs) : Session where
  fs := fs
  cwd := rootInode
  uid := 0
  gid := 0
  halted := false

/-- A change of the filesystem, with what is printed if it is refused. -/
def Session.attempt (session : Session) (result : RamFs × Bool) (refusal : Bytes) :
    Session × Bytes :=
  ({ session with fs := result.1 }, if result.2 then [] else refusal)

def onPath (session : Session) (usage : Bytes) (arg : Option Bytes)
    (command : Bytes → Session × Bytes) : Session × Bytes :=
  match arg with
  | some path => command path
  | none => (session, usage)

/-- What `inode_path` puts into a buffer of 256 bytes. -/
def workingPath (session : Session) : Bytes :=
  utf8Or (inodePath session.fs session.cwd 256).1 [slash]

def cmdPwd (session : Session) : Bytes := workingPath session ++ [newline]

def cmdCd (session : Session) (arg : Option Bytes) : Session × Bytes :=
  let path := arg.getD [slash]
  match session.fs.resolve path session.cwd with
  | none => (session, message "cd: no such directory: " ++ path ++ [newline])
  | some idx =>
      if (session.fs.inodes idx).kind = .dir then ({ session with cwd := idx }, [])
      else (session, message "cd: not a directory: " ++ path ++ [newline])

/-- `name_str` of an inode. -/
def nameStr (inode : Inode) : Bytes := utf8Or inode.name [0x3F]

def listDir (fs : RamFs) (path : Bytes) (cwd : InodeIndex) : List Inode :=
  match fs.resolve path cwd with
  | some dir =>
      if (fs.inodes dir).kind ≠ .dir then []
      else
        ((List.finRange maxInodes).filter fun i =>
          (fs.inodes i).used && (fs.inodes i).parent == dir && i != dir).map fs.inodes
  | none => []

/-- One line of `ls`. -/
def listed (long : Bool) (inode : Inode) : Bytes :=
  (if long then
    formatMode (inode.kind == .dir) inode.mode ++ message "  " ++ userName inode.uid ++
      message "  " ++ userName inode.gid ++ message "  " ++ printU64Padded inode.size 6 ++
      message "  "
  else []) ++
    nameStr inode ++ (if inode.kind = .dir then [slash] else []) ++ [newline]

def longFlag : Bytes := [0x2D, 0x6C]

def cmdLs (session : Session) (first second : Option Bytes) : Bytes :=
  let long := first == some longFlag
  let path := if long then second.getD dot else first.getD dot
  let entries := listDir session.fs path session.cwd
  if entries.isEmpty then
    match session.fs.resolve path session.cwd with
    | none => message "ls: " ++ path ++ message ": no such file\n"
    | some _ => path ++ [newline]
  else entries.flatMap (listed long)

def cmdMkdir (session : Session) (arg : Option Bytes) : Session × Bytes :=
  onPath session (message "usage: mkdir <dir>\n") arg fun path =>
    session.attempt (session.fs.mkdir path session.cwd session.uid session.gid 0o755)
      (message "mkdir: cannot create directory: " ++ path ++ [newline])

def cmdRmdir (session : Session) (arg : Option Bytes) : Session × Bytes :=
  onPath session (message "usage: rmdir <dir>\n") arg fun path =>
    session.attempt (session.fs.rmdir path session.cwd session.uid session.gid)
      (message "rmdir: cannot remove " ++ path ++
        message " (not empty, no permission, or not a directory)\n")

def cmdRm (session : Session) (arg : Option Bytes) : Session × Bytes :=
  onPath session (message "usage: rm <file>\n") arg fun path =>
    session.attempt (session.fs.unlink path session.cwd session.uid session.gid)
      (message "rm: cannot remove: " ++ path ++ [newline])

def cmdTouch (session : Session) (arg : Option Bytes) : Session × Bytes :=
  onPath session (message "usage: touch <file>\n") arg fun path =>
    session.attempt (session.fs.touch path session.cwd session.uid session.gid)
      (message "touch: cannot create: " ++ path ++ [newline])

/-- What `cat` prints of a file. -/
def catText (content : Bytes) : Bytes := utf8Or content (message "<binary file>\n")

def cmdCat (session : Session) (arg : Option Bytes) : Session × Bytes :=
  onPath session (message "usage: cat <file>\n") arg fun path =>
    match session.fs.readAt path session.cwd session.uid session.gid with
    | some content => (session, catText content)
    | none =>
        (session, message "cat: " ++ path ++ message ": no such file or permission denied\n")

def cmdWrite (session : Session) (arg : Option Bytes) (line : Bytes) : Session × Bytes :=
  onPath session (message "usage: write <file> <content>\n") arg fun path =>
    session.attempt
      (session.fs.write path session.cwd (skipWords isBlank 2 line) session.uid session.gid)
      (message "write: cannot write: " ++ path ++ [newline])

/-- `do_append` with its message. -/
def appendTo (session : Session) (path content : Bytes) : Session × Bytes :=
  session.attempt (doAppend session.fs path content session.cwd session.uid session.gid)
    (message "append: cannot write: " ++ path ++ [newline])

def cmdAppend (session : Session) (arg : Option Bytes) (line : Bytes) : Session × Bytes :=
  onPath session (message "usage: append <file> <content>\n") arg fun path =>
    appendTo session path (skipWords isBlank 2 line)

def cmdCp (session : Session) (srcArg dstArg : Option Bytes) : Session × Bytes :=
  match srcArg, dstArg with
  | some src, some dst =>
      match session.fs.readAt src session.cwd session.uid session.gid with
      | none => (session, message "cp: cannot read: " ++ src ++ [newline])
      | some data =>
          session.attempt
            (session.fs.write dst session.cwd (data.take 4096) session.uid session.gid)
            (message "cp: cannot write: " ++ dst ++ [newline])
  | _, _ => (session, message "usage: cp <src> <dst>\n")

def cmdMv (session : Session) (srcArg dstArg : Option Bytes) : Session × Bytes :=
  match srcArg, dstArg with
  | some src, some dst =>
      session.attempt (session.fs.rename src dst session.cwd session.uid session.gid)
        (message "mv: cannot rename: " ++ src ++ [newline])
  | _, _ => (session, message "usage: mv <src> <dst>\n")

/-- The lines that `stat` prints about an inode. -/
def described (inode : Inode) : Bytes :=
  message "  File: " ++ nameStr inode ++ message "\n  Type: " ++
    (if inode.kind = .dir then message "directory" else message "regular file") ++
    message "\n  Mode: " ++ formatMode (inode.kind == .dir) inode.mode ++
    message "\n   Uid: " ++ printU64 inode.uid.toNat ++
    message "   Gid: " ++ printU64 inode.gid.toNat ++
    message "\n  Size: " ++ printU64 inode.size ++ message " bytes\n"

def cmdStat (session : Session) (arg : Option Bytes) : Session × Bytes :=
  onPath session (message "usage: stat <path>\n") arg fun path =>
    let found := (session.fs.resolve path session.cwd).filter fun idx =>
      (session.fs.inodes idx).used
    match found with
    | some idx => (session, described (session.fs.inodes idx))
    | none => (session, message "stat: " ++ path ++ message ": no such file or directory\n")

/-- `trim_start_matches(mark)`, in at most so many rounds. -/
def trimStartMatches (mark : Bytes) : Nat → Bytes → Bytes
  | 0, bytes => bytes
  | rounds + 1, bytes =>
      if mark <+: bytes then trimStartMatches mark rounds (bytes.drop mark.length) else bytes

def echoName : Bytes := ascii ['e', 'c', 'h', 'o']

/-- ` > `, and ` >> ` for appending. -/
def arrow : Bytes := [space, 0x3E, space]

def doubleArrow : Bytes := [space, 0x3E, 0x3E, space]

def parseRedirect (rest : Bytes) : Option (Bytes × Bytes × Bool) :=
  match cutAt doubleArrow rest with
  | some parts => some (parts.1, trim parts.2, true)
  | none =>
      if doubleArrow.tail <+: rest then some ([], trim (rest.drop 3), true)
      else
        match cutAt arrow rest with
        | some parts => some (parts.1, trim parts.2, false)
        | none => if arrow.tail <+: rest then some ([], trim (rest.drop 2), false) else none

def echoBody (line : Bytes) : Bytes :=
  (trimStartMatches echoName line.length line).dropWhile (· == space)

def cmdEcho (session : Session) (line : Bytes) : Session × Bytes :=
  match parseRedirect (echoBody line) with
  | some (content, path, append) =>
      if path = [] then (session, message "echo: missing filename for redirect\n")
      else if append then appendTo session path content
      else
        session.attempt
          (session.fs.write path session.cwd (content.take 4095 ++ [newline]) session.uid
            session.gid)
          (message "echo: cannot write: " ++ path ++ [newline])
  | none => (session, echoBody line ++ [newline])

def cmdChmod (session : Session) (modeArg pathArg : Option Bytes) : Session × Bytes :=
  match modeArg, pathArg with
  | some digits, some path =>
      match parseOctal digits with
      | some mode =>
          session.attempt (session.fs.chmod path session.cwd mode session.uid)
            (message "chmod: permission denied or file not found\n")
      | none => (session, message "chmod: invalid mode (use octal, e.g. 755)\n")
  | _, _ => (session, message "usage: chmod <mode> <file>\n")

def cmdChown (session : Session) (ownerArg pathArg : Option Bytes) : Session × Bytes :=
  match ownerArg, pathArg with
  | some name, some path =>
      match lookupByName name with
      | some user =>
          session.attempt (session.fs.chown path session.cwd user.uid user.gid session.uid)
            (message "chown: permission denied (only root can chown)\n")
      | none => (session, message "chown: unknown user: " ++ name ++ [newline])
  | _, _ => (session, message "usage: chown <user> <file>\n")

def cmdWhoami (session : Session) : Bytes :=
  match lookupByUid session.uid with
  | some user => user.nameStr ++ [newline]
  | none => message "uid=" ++ printU64 session.uid.toNat ++ [newline]

def rootName : Bytes := ascii ['r', 'o', 'o', 't']

def cmdSu (session : Session) (arg : Option Bytes) : Session × Bytes :=
  let name := arg.getD rootName
  match lookupByName name with
  | none => (session, message "su: user not found: " ++ name ++ [newline])
  | some user =>
      ({ session with uid := user.uid, gid := user.gid },
        message "switched to " ++ user.nameStr ++ [newline])

def cmdUsers : Bytes :=
  users.flatMap fun user =>
    message "uid=" ++ printU64 user.uid.toNat ++ message " gid=" ++ printU64 user.gid.toNat ++
      [space] ++ user.nameStr ++ [newline]

inductive Command where
  | echo
  | pwd
  | cd
  | ls
  | mkdir
  | rmdir
  | rm
  | touch
  | cat
  | write
  | append
  | cp
  | mv
  | stat
  | chmod
  | chown
  | whoami
  | su
  | users
  | halt
  | report
  deriving DecidableEq

/-- The arms of the `match` in `execute`. -/
def commandTable : List (Bytes × Command) :=
  [(ascii ['h', 'e', 'l', 'p'], .report), (echoName, .echo),
    (ascii ['c', 'l', 'e', 'a', 'r'], .report), (ascii ['p', 'w', 'd'], .pwd),
    (ascii ['c', 'd'], .cd), (ascii ['l', 's'], .ls), (ascii ['m', 'k', 'd', 'i', 'r'], .mkdir),
    (ascii ['r', 'm', 'd', 'i', 'r'], .rmdir), (ascii ['r', 'm'], .rm),
    (ascii ['t', 'o', 'u', 'c', 'h'], .touch), (ascii ['c', 'a', 't'], .cat),
    (ascii ['w', 'r', 'i', 't', 'e'], .write), (ascii ['a', 'p', 'p', 'e', 'n', 'd'], .append),
    (ascii ['c', 'p'], .cp), (ascii ['m', 'v'], .mv), (ascii ['s', 't', 'a', 't'], .stat),
    (ascii ['c', 'h', 'm', 'o', 'd'], .chmod), (ascii ['c', 'h', 'o', 'w', 'n'], .chown),
    (ascii ['w', 'h', 'o', 'a', 'm', 'i'], .whoami), (ascii ['s', 'u'], .su),
    (ascii ['u', 's', 'e', 'r', 's'], .users), (ascii ['u', 'n', 'a', 'm', 'e'], .report),
    (ascii ['p', 's'], .report), (ascii ['u', 'p', 't', 'i', 'm', 'e'], .report),
    (ascii ['m', 'e', 'm'], .report), (ascii ['s', 'p', 'a', 'w', 'n'], .report),
    (ascii ['r', 'u', 'n'], .report), (ascii ['k', 'i', 'l', 'l'], .report),
    (ascii ['h', 'a', 'l', 't'], .halt), (ascii ['e', 'x', 'i', 't'], .halt),
    (ascii ['p', 'o', 'w', 'e', 'r', 'o', 'f', 'f'], .halt),
    (ascii ['s', 'h', 'u', 't', 'd', 'o', 'w', 'n'], .halt)]

/-- What the reporting commands print, from the words of the line. -/
abbrev Reports := List Bytes → Bytes

def perform (reports : Reports) (session : Session) (line : Bytes) (args : List Bytes) :
    Command → Session × Bytes
  | .echo => cmdEcho session line
  | .pwd => (session, cmdPwd session)
  | .cd => cmdCd session args[0]?
  | .ls => (session, cmdLs session args[0]? args[1]?)
  | .mkdir => cmdMkdir session args[0]?
  | .rmdir => cmdRmdir session args[0]?
  | .rm => cmdRm session args[0]?
  | .touch => cmdTouch session args[0]?
  | .cat => cmdCat session args[0]?
  | .write => cmdWrite session args[0]? line
  | .append => cmdAppend session args[0]? line
  | .cp => cmdCp session args[0]? args[1]?
  | .mv => cmdMv session args[0]? args[1]?
  | .stat => cmdStat session args[0]?
  | .chmod => cmdChmod session args[0]? args[1]?
  | .chown => cmdChown session args[0]? args[1]?
  | .whoami => (session, cmdWhoami session)
  | .su => cmdSu session args[0]?
  | .users => (session, cmdUsers)
  | .halt => ({ session with halted := true }, message "System halting...\n")
  | .report => (session, reports (words isBlank line))

def execute (reports : Reports) (session : Session) (line : Bytes) : Session × Bytes :=
  if session.halted then (session, [])
  else
    match words isBlank line with
    | [] => (session, [])
    | name :: args =>
        match commandTable.lookup name with
        | some command => perform reports session line args command
        | none => (session, message "unknown command: " ++ name ++ [newline])

end Ferrugem.ShellCommands
