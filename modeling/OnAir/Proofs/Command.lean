import OnAir.Command.Run

set_option autoImplicit false

namespace OnAir.Command

variable {folder folder' : Folder} {α β : Type}

end OnAir.Command
