/-!
# Words

`Word` : what a register or a place in memory holds, 32 bits. As a signed number it is
`BitVec.toInt`, as an unsigned one `BitVec.toNat`.
-/

namespace SolMachine

/-- A machine word of 32 bits. -/
abbrev Word := BitVec 32

namespace Word

def least : Int := -2147483648

def greatest : Int := 2147483647

end Word

end SolMachine
