import LedgerWire.Registry.Bundled

namespace LedgerWire

structure Workspace where
  current : Registry
  held : List Registry

namespace Workspace

def initial : Workspace := ⟨Registry.bundled, []⟩

def setCurrent (workspace : Workspace) (registry : Registry) : Workspace :=
  { workspace with current := registry }

def hold (workspace : Workspace) (registry : Registry) : Nat × Workspace :=
  (workspace.held.length, { workspace with held := workspace.held ++ [registry] })

def held? (workspace : Workspace) (index : Nat) : Option Registry :=
  workspace.held[index]?

end Workspace
end LedgerWire
