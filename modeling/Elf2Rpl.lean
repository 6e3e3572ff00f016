import Elf2Rpl.Format.Bytes
import Elf2Rpl.Format.Layout
import Elf2Rpl.Format.Elf
import Elf2Rpl.Tool.ReadElf
import Elf2Rpl.Tool.Bss
import Elf2Rpl.Tool.Reorder
import Elf2Rpl.Tool.Relocations
import Elf2Rpl.Tool.LoaderAddresses
import Elf2Rpl.Tool.FileInfo
import Elf2Rpl.Tool.Crcs
import Elf2Rpl.Tool.Deflate
import Elf2Rpl.Tool.Offsets
import Elf2Rpl.Tool.Write
import Elf2Rpl.Pipeline.Run
import Elf2Rpl.Pipeline.Layout
import Elf2Rpl.Pipeline.Output
import Elf2Rpl.Pipeline.Content
import Elf2Rpl.Pipeline.References
import Elf2Rpl.Pipeline.Written
