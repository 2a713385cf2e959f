/-! Error numbers the modelled functions report through `errno`. -/
namespace LashOs

inductive Errno where
  | E2BIG | EBADF | EEXIST | EFAULT | EINTR | EINVAL | EMFILE
  | ENAMETOOLONG | ENOBUFS | ENOENT | ENOMEM | ENOTSUP | EPROTO
  -- `EIO`
  | ioError
  -- Any other error of a native call.
  | other (code : Nat)
  deriving DecidableEq, Repr

end LashOs
