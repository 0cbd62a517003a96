import Ferrugem.ShellCommands

/-!
# Files through the shell

What a command line puts into a file, a later `cat` of the same path prints.
The text of a line reaches the file through three cuts of the line (the command
name, the redirect, the path), and the file through the path, which has to name
the same inode before and after a file is created.
-/

namespace Ferrugem.ShellSessions

open Ferrugem.RamFsModel Ferrugem.DirectoryNames Ferrugem.PathResolution
open Ferrugem.Truncation Ferrugem.ShellAppend Ferrugem.LineHistory Ferrugem.ShellCommands
open WordSplitting

set_option autoImplicit false

section

variable {fs : RamFs} {path content : Bytes} {cwd idx : InodeIndex} {uid gid : BitVec 16}

end

section

variable {text path : Bytes}

end

section

variable {reports : Reports} {session : Session}

end

def notePath : Bytes := ascii ['/', 't', 'm', 'p', '/', 'n']

end Ferrugem.ShellSessions
