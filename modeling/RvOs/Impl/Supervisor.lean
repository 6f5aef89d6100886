import RvOs.Impl.Dtb
import RvOs.Impl.PagingInit

/-!
# Supervisor mode up to paging

`supervisor_main` up to the call of `paging_init`, and the addresses that
`UART.cpp` accesses. Nothing calls `uart_init`, so `g_uart_base` is only passed
on.
-/

namespace RvOs

def UART_RHR : U64 := 0
def UART_LSR : U64 := 5

/-- `g_uart_base` in the image. -/
def gUartBaseInitial : U64 := 0x10000000

def uartReg (gUartBase : U64) : Addr := gUartBase
def uartRegOffset (gUartBase offset : U64) : Addr := gUartBase + offset

/-- The accesses of `uart_putc`, and so of `uart_puts`, and of `uart_getc`. -/
def uartAccesses (gUartBase : U64) : List (Access × Addr) :=
  [(.store, uartReg gUartBase),
   (.load, uartRegOffset gUartBase UART_LSR),
   (.load, uartRegOffset gUartBase UART_RHR)]

/-- The state of the kernel once paging is on. -/
structure Supervisor extends BootState where
  platform : PlatformInfo
  gUartBase : U64

/-- `PlatformInfo platform = {}`. -/
def PlatformInfo.zero : PlatformInfo := ⟨0, 0, 0, 0, 0, 0, 0, 0, 0, 0⟩

/-- The start of `supervisor_main` from memory and statics `b`: `some none` is a panic. -/
def supervisorMain (image : ImageSymbols) (sym : KernelSymbols) (dtb : Fdt) (b : BootState) (gUartBase : U64) :
    Option (Option Supervisor) :=
  let (ok, platform) := platformInfoInit image .zero dtb
  if !ok then some none
  else
    let (ok, allocator) := physicalPageAllocatorInit platform
    if !ok then some none
    else do
      let (ok, b) ← pagingInit sym platform { b with allocator, root := 0 }
      if !ok then return none
      return some { toBootState := b, platform, gUartBase }

end RvOs
