/-! The bounds of the integers that files and command lines can hold. -/
namespace Inventory.Word

/-- One more than the greatest number of 32 bits. -/
def limit32 : Nat := 4294967296

/-- One more than the greatest number of 64 bits, without and with a sign. -/
def limit64 : Nat := 18446744073709551616
def signedLimit64 : Nat := 9223372036854775808

end Inventory.Word
