/-!
# Error numbers

The numbers of `errno.h` that the modelled functions return, negated.
-/

namespace Sima

def eio : Int := 5
def enomem : Int := 12
def ebusy : Int := 16
def enodev : Int := 19
def einval : Int := 22

end Sima
