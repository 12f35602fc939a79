import HackVM.Machine.Memory
import Std.Data.TreeMap

namespace HackVM.Machine

/-!
# Symbol tables

While a program is assembled, a table gives the address that each symbol stands for. Some symbols
are known beforehand: the pointers of the virtual machine, the sixteen registers, and the two
devices.

* `SymbolTable.find?` and `SymbolTable.insert`, with `find?_insert` to connect them;
* `SymbolTable.predefined` is the table to start with.
-/

/-- What each symbol stands for. -/
structure SymbolTable where
  /-- The address of each symbol. -/
  addresses : Std.TreeMap String Word

namespace SymbolTable

/-- The table without a symbol. -/
def empty : SymbolTable := ⟨∅⟩

/-- The address of a symbol. -/
def find? (t : SymbolTable) (name : String) : Option Word :=
  t.addresses[name]?

/-- The table in which a symbol has a given address. -/
def insert (t : SymbolTable) (name : String) (address : Word) : SymbolTable :=
  ⟨t.addresses.insert name address⟩

@[simp] theorem find?_empty (name : String) : empty.find? name = none := by
  simp [find?, empty]

theorem find?_insert (t : SymbolTable) (name other : String) (address : Word) :
    (t.insert name address).find? other = if name = other then some address else t.find? other := by
  simp [find?, insert, Std.TreeMap.getElem?_insert]

/-- The table with several symbols added in order. -/
def insertAll (t : SymbolTable) (bindings : List (String × Word)) : SymbolTable :=
  bindings.foldl (fun t (name, address) => t.insert name address) t

/-- The pointers of the virtual machine and the devices. -/
def namedAddresses : List (String × Word) :=
  [("SP", 0), ("LCL", 1), ("ARG", 2), ("THIS", 3), ("THAT", 4), ("SCREEN", 0x4000), ("KBD", 0x6000)]

/-- The sixteen registers. -/
def registers : List (String × Word) :=
  (List.range 16).map fun n => ("R" ++ toString n, BitVec.ofNat 16 n)

/-- The symbols that are known before a program is read. -/
def predefined : SymbolTable :=
  empty.insertAll (namedAddresses ++ registers)

end SymbolTable

end HackVM.Machine
